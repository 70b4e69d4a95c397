import Mathlib.Order.Bounds.Basic
import Montage.Proofs.Expr.Moment
import Montage.Proofs.Number.Monotone
import Montage.Proofs.Timeline.Built
import Montage.Proofs.Timeline.CaptionWindow

/-!
# Words that are highlighted

Words with times become two layers each: one at rest and one that covers it while the word is spoken
(`Timeline.addWords_highlights`).  The layer at rest is there from the start of the first word of
its line until the latest end on the line.

So a word is not covered that starts before the first word of its line; and a word that starts
before zero is moved to zero with its length, and goes on when it has ended.  These are the only
words whose highlight leaves its layer at rest or ends at another time (`Timeline.covers_iff`).
-/

set_option autoImplicit false

namespace Montage

variable [rounding : Rounding]

/-! ## Windows -/

namespace Layer

/-- Whenever a layer is visible, so is another one. -/
def IsWithin (layer base : Layer) : Prop :=
  ∀ (length : Quantity) (t : Rat), 0 ≤ t → layer.isVisible length (.finite t) = true →
    base.isVisible length (.finite t) = true

/-- A layer ends at a value. -/
def EndsAt (layer : Layer) (stop : Rat) : Prop :=
  ∃ last, layer.endTime = some last ∧ last.value? = some stop

end Layer

namespace Timeline

variable {start stop first latest : Rat} {base spoken : Layer}

/-- **What is moved to zero ends too late, and what starts before its line is not covered**; all
other windows are within the window of their line, and end when they should. -/
theorem covers_iff (hle : start ≤ stop) (hlatest : stop ≤ latest)
    (hbase : base.IsVisibleBetween (max 0 first) (max 0 first + (latest - first)))
    (hspoken : spoken.IsVisibleBetween (max 0 start) (max 0 start + (stop - start)))
    (hend : spoken.EndsAt (max 0 start + (stop - start))) :
    spoken.IsWithin base ∧ spoken.EndsAt stop ↔ 0 ≤ start ∧ (first ≤ start ∨ start = stop) := by
  constructor
  · rintro ⟨hwithin, last, hlast, hstop⟩
    obtain ⟨last', hlast', hmoved⟩ := hend
    cases hlast.symm.trans hlast'
    have hsame := Option.some.inj (hstop.symm.trans hmoved)
    have hstart : 0 ≤ start := by
      have := le_max_left 0 start
      linarith
    refine ⟨hstart, or_iff_not_imp_right.mpr fun hne ↦ ?_⟩
    -- when the word begins, its layer at rest has begun
    rw [max_eq_right hstart] at hspoken
    have hseen := (hspoken (.finite 0) start hstart).mpr
      ⟨le_rfl, by have := lt_of_le_of_ne hle hne; linarith⟩
    exact (le_max_right 0 first).trans
      ((hbase (.finite 0) start hstart).mp (hwithin (.finite 0) start hstart hseen)).1
  · rintro ⟨hstart, hcovered⟩
    rw [max_eq_right hstart, add_sub_cancel] at hspoken hend
    refine ⟨fun length t ht hseen ↦ ?_, hend⟩
    obtain ⟨hbegun, hlasts⟩ := (hspoken length t ht).mp hseen
    rcases hcovered with hfirst | rfl
    · refine (hbase length t ht).mpr ⟨max_le ht (hfirst.trans hbegun), ?_⟩
      have := le_max_right 0 first
      linarith
    · exact absurd hlasts (not_lt.mpr hbegun)

end Timeline

/-! ## Times of words -/

omit rounding in
theorem Number.max_of_value? {a b : Number} {p q : Rat} (ha : a.exactly.value? = some p)
    (hb : b.exactly.value? = some q) : (a.max b).exactly.value? = some (Max.max p q) := by
  have hlt := Quantity.lt_iff_value? ha hb
  unfold Number.max
  split
  · rename_i h
    rw [max_eq_right (hlt.mp h).le, hb]
  · rename_i h
    rw [max_eq_left (not_lt.mp (mt hlt.mpr h)), ha]

/-- A layer that starts at a number starts at a value. -/
theorem Layer.value?_of_decodeStart {n : Number} {x : Quantity}
    (h : decodeStart (.num n) = .ok x) : ∃ p, n.exactly.value? = some p := by
  cases n with
  | whole k => exact ⟨k, rfl⟩
  | real y => exact Quantity.isFinite_iff.mp (decodeStart_quantity h).1

/-- What ends after a start, and lasts for a while that a layer can last, ends at a value. -/
theorem Layer.value?_of_decodeLength (exact : rounding.IsExact) {start stop difference : Number}
    {p : Rat} {length : Option Quantity} (hp : start.exactly.value? = some p)
    (hle : start.exactly.le stop.exactly = true) (hsub : stop.sub start = .ok difference)
    (h : Decoder.optional decodeLength (.num (Number.max (.real (.finite 0)) difference)) =
      .ok length) : ∃ q, p ≤ q ∧ stop.exactly.value? = some q := by
  refine (Quantity.value?_or_endless_of_le hp hle).resolve_right fun hendless ↦ ?_
  obtain rfl : stop = .real (.infinite false) := by
    cases stop with
    | whole k => cases hendless
    | real y => exact congrArg Number.real hendless
  have hinfinite : difference = .real (.infinite false) := by
    cases start with
    | whole k =>
      obtain ⟨x, hx, hsub⟩ := bind_eq_ok.mp hsub
      obtain ⟨y, hy, hsub⟩ := bind_eq_ok.mp hsub
      cases hx
      rw [Number.toQuantity_whole exact] at hy
      cases hy
      rw [← pure_eq_ok.mp hsub, Quantity.infinite_sub rfl]
    | real x =>
      have hx : x.value? = some p := hp
      cases hsub
      rw [Quantity.infinite_sub hx]
  rw [hinfinite] at h
  have hlength := (decodeLength_quantity h).1
  cases hlength

/-! ## Layers of words -/

namespace Timeline

/-- What is made for a word in a window. -/
structure IsWordLayer (word : String) (start stop : Rat) (position : Position)
    (animation : Option Animation) (layer : Layer) : Prop where
  content : layer.content = .text word animation
  position : layer.position = some position
  visible : layer.IsVisibleBetween (max 0 start) (max 0 start + (stop - start))
  ends : layer.EndsAt (max 0 start + (stop - start))

theorem wordLayer_eq_ok {word : String} {start stop : Number} {position : Position} {style : Style}
    {animation : Option Animation} {layer : Layer} (exact : rounding.IsExact)
    (hle : start.exactly.le stop.exactly = true)
    (h : wordLayer word start stop position style animation = .ok layer) :
    ∃ p q, start.exactly.value? = some p ∧ stop.exactly.value? = some q ∧ p ≤ q ∧
      IsWordLayer word p q position animation layer := by
  obtain ⟨difference, hdifference, h⟩ := bind_eq_ok.mp h
  obtain ⟨place, hplace, h⟩ := bind_eq_ok.mp (constructing_eq_ok.mp h)
  obtain ⟨look, hlook, h⟩ := bind_eq_ok.mp h
  cases hplace
  cases hlook
  have hlayer := Checked.toExcept_eq_ok.mp h
  obtain ⟨hread, hspan⟩ := Layer.assemble_eq_ok rfl rfl hlayer
  obtain ⟨p, hp⟩ := Layer.value?_of_decodeStart hread
  obtain ⟨q, hpq, hq⟩ := Layer.value?_of_decodeLength exact hp hle hdifference hspan
  have hlength : (Number.max (.real (.finite 0)) difference).exactly.value? = some (q - p) := by
    obtain ⟨c, hc, hvalue⟩ := Number.sub_of_value? exact hq hp
    cases hdifference.symm.trans hc
    rw [Number.max_of_value? (p := 0) rfl hvalue, max_eq_right (sub_nonneg.mpr hpq)]
  obtain ⟨hstart, d, hduration, hd⟩ := Layer.times_of_read exact hread hp hspan hlength
  have hend : layer.endTime = some (layer.startTime.add d) := by
    rw [Layer.endTime, hduration, Option.map_some]
  have hstop : (layer.startTime.add d).value? = some (max 0 p + (q - p)) :=
    Quantity.value?_add exact (by rw [hstart]; rfl) hd
  have hparts : layer.content = .text word animation ∧ layer.position = some position := by
    refine (?_ : Checked.All _ fun layer : Layer ↦ layer.content = .text word animation ∧
      layer.position = some position) layer hlayer
    simp only [Layer.decodeWith, Layer.assemble, Layer.decodeContent, Layer.decodeText,
      Checked.all_seq, Checked.all_map]
    intro _ _ _ _ _ hplace _ _ text htext _ hanimation
    cases hplace
    cases htext
    cases hanimation
    exact ⟨rfl, rfl⟩
  exact ⟨p, q, hp, hq, hpq, hparts.1, hparts.2, Layer.isVisible_iff hstart hend hstop,
    _, hend, hstop⟩

/-! ## Layers of lines -/

/-- Two layers for each word, one after the other. -/
def flatPairs (pairs : List (Layer × Layer)) : List Layer :=
  pairs.flatMap fun pair ↦ [pair.1, pair.2]

theorem lineLayers_eq_ok {block : WordBlock} {lineStart lineStop dy : Number} {count place : Nat}
    {words : List TimedWord} {layers : List Layer}
    (h : lineLayers block lineStart lineStop dy count place words = .ok layers) :
    ∃ row, layers = flatPairs row ∧ List.Forall₂ (fun word pair ↦ ∃ position,
      wordLayer word.word lineStart lineStop position block.rest none = .ok pair.1 ∧
      wordLayer word.word word.start word.stop position block.active block.animation = .ok pair.2)
      words row := by
  induction words generalizing place layers with
  | nil =>
    cases h
    exact ⟨[], rfl, .nil⟩
  | cons word rest ih =>
    obtain ⟨step, -, h⟩ := bind_eq_ok.mp h
    obtain ⟨dx, -, h⟩ := bind_eq_ok.mp h
    obtain ⟨position, -, h⟩ := bind_eq_ok.mp h
    obtain ⟨atRest, hrest, h⟩ := bind_eq_ok.mp h
    obtain ⟨spoken, hspoken, h⟩ := bind_eq_ok.mp h
    obtain ⟨others, hothers, h⟩ := bind_eq_ok.mp h
    cases pure_eq_ok.mp h
    obtain ⟨row, rfl, hrow⟩ := ih hothers
    exact ⟨(atRest, spoken) :: row, rfl, .cons ⟨position, hrest, hspoken⟩ hrow⟩

/-- The latest end of some words, and of what was the latest so far. -/
def latestStop (stop : Number) (words : List TimedWord) : Number :=
  words.foldl (fun stop other ↦ stop.max other.stop) stop

omit rounding in
theorem latestStop_isGreatest {words : List TimedWord} {stop : Number} {q : Rat}
    (hq : stop.exactly.value? = some q)
    (hwords : ∀ word ∈ words, ∃ q, word.stop.exactly.value? = some q) :
    ∃ latest, (latestStop stop words).exactly.value? = some latest ∧
      IsGreatest {r | r = q ∨ ∃ word ∈ words, word.stop.exactly.value? = some r} latest := by
  induction words generalizing stop q with
  | nil => exact ⟨q, hq, .inl rfl, by rintro r (rfl | ⟨word, hword, -⟩) <;> [rfl; cases hword]⟩
  | cons word rest ih =>
    rw [List.forall_mem_cons] at hwords
    obtain ⟨r, hr⟩ := hwords.1
    obtain ⟨latest, hlatest, hmem, hbound⟩ := ih (Number.max_of_value? hq hr) hwords.2
    refine ⟨latest, hlatest, ?_, ?_⟩
    · rcases hmem with rfl | ⟨other, hother, hvalue⟩
      · rcases le_total q r with hle | hle
        · exact .inr ⟨word, List.mem_cons_self, by rw [hr, max_eq_right hle]⟩
        · exact .inl (max_eq_left hle)
      · exact .inr ⟨other, List.mem_cons_of_mem _ hother, hvalue⟩
    · have hfirst : max q r ≤ latest := hbound (.inl rfl)
      rintro s (rfl | ⟨other, hother, hvalue⟩)
      · exact (le_max_left _ _).trans hfirst
      · rcases List.mem_cons.mp hother with rfl | hother
        · cases hr.symm.trans hvalue
          exact (le_max_right _ _).trans hfirst
        · exact hbound (.inr ⟨other, hother, hvalue⟩)

/-- The window of a line: it begins with the first word, and ends with the word that ends last. -/
structure IsLineWindow (line : List TimedWord) (first latest : Rat) : Prop where
  first : ∃ word ∈ line.head?, word.start.exactly.value? = some first
  latest : IsGreatest {q | ∃ word ∈ line, word.stop.exactly.value? = some q} latest

/-- The two layers of a word on a line, the one at rest first.  They show the word in one place.
The one at rest is visible in the window of the line, and the other one in the window of the word,
each of them from zero on if it would begin before.  The word is covered while it is spoken, and no
longer, just if it does not begin before zero, and not before its line unless it lasts for no time.
-/
structure Highlights (first latest : Rat) (word : TimedWord) (pair : Layer × Layer) : Prop where
  rest : pair.1.content = .text word.word none
  spoken : ∃ animation, pair.2.content = .text word.word animation
  position : ∃ position, pair.1.position = some position ∧ pair.2.position = some position
  windows : ∃ start stop, word.start.exactly.value? = some start ∧
    word.stop.exactly.value? = some stop ∧
    pair.1.IsVisibleBetween (max 0 first) (max 0 first + (latest - first)) ∧
    pair.2.IsVisibleBetween (max 0 start) (max 0 start + (stop - start)) ∧
    (pair.2.IsWithin pair.1 ∧ pair.2.EndsAt stop ↔ 0 ≤ start ∧ (first ≤ start ∨ start = stop))

/-- **The words of a line are highlighted within the line**, as far as they are within it. -/
theorem lineLayers_highlight (exact : rounding.IsExact) {block : WordBlock} {dy : Number}
    {count place : Nat} {first : TimedWord} {rest : List TimedWord} {layers : List Layer}
    (hordered : ∀ word ∈ first :: rest, word.start.exactly.le word.stop.exactly = true)
    (h : lineLayers block first.start (latestStop first.stop rest) dy count place (first :: rest) =
      .ok layers) :
    ∃ row start latest, layers = flatPairs row ∧ IsLineWindow (first :: rest) start latest ∧
      List.Forall₂ (Highlights start latest) (first :: rest) row := by
  obtain ⟨row, hlayers, hrow⟩ := lineLayers_eq_ok h
  have htimes : ∀ word ∈ first :: rest, ∃ p q, word.start.exactly.value? = some p ∧
      word.stop.exactly.value? = some q ∧ p ≤ q := by
    intro word hword
    obtain ⟨pair, -, position, -, hspoken⟩ := exists_of_mem_forall₂ hrow hword
    obtain ⟨p, q, hp, hq, hpq, -⟩ := wordLayer_eq_ok exact (hordered word hword) hspoken
    exact ⟨p, q, hp, hq, hpq⟩
  obtain ⟨start, stop, hstart, hstop, hle⟩ := htimes first List.mem_cons_self
  obtain ⟨latest, hlatest, hmem, hbound⟩ := latestStop_isGreatest hstop fun word hword ↦ by
    obtain ⟨p, q, -, hq, -⟩ := htimes word (List.mem_cons_of_mem _ hword)
    exact ⟨q, hq⟩
  have hgreatest : IsGreatest {q | ∃ word ∈ first :: rest, word.stop.exactly.value? = some q}
      latest := by
    refine ⟨?_, ?_⟩
    · rcases hmem with rfl | ⟨word, hword, hvalue⟩
      · exact ⟨first, List.mem_cons_self, hstop⟩
      · exact ⟨word, List.mem_cons_of_mem _ hword, hvalue⟩
    · rintro q ⟨word, hword, hvalue⟩
      rcases List.mem_cons.mp hword with rfl | hword
      · exact hbound (.inl (Option.some.inj (hvalue.symm.trans hstop)))
      · exact hbound (.inr ⟨word, hword, hvalue⟩)
  have hline : first.start.exactly.le (latestStop first.stop rest).exactly = true :=
    (Quantity.le_iff_value? hstart hlatest).mpr (hle.trans (hbound (.inl rfl)))
  refine ⟨row, start, latest, hlayers, ⟨⟨first, rfl, hstart⟩, hgreatest⟩, ?_⟩
  refine ((List.forall₂_and_left _ _).mpr ⟨fun word hword ↦ hword, hrow⟩).imp ?_
  rintro word pair ⟨hword, position, hrest, hspoken⟩
  obtain ⟨p, q, hp, hq, -, base⟩ := wordLayer_eq_ok exact hline hrest
  cases hp.symm.trans hstart
  cases hq.symm.trans hlatest
  obtain ⟨p, q, hp, hq, hpq, spoken⟩ := wordLayer_eq_ok exact (hordered word hword) hspoken
  exact ⟨base.content, ⟨_, spoken.content⟩, ⟨position, base.position, spoken.position⟩, p, q, hp,
    hq, base.visible, spoken.visible,
    covers_iff hpq (hgreatest.2 ⟨word, hword, hq⟩) base.visible spoken.visible spoken.ends⟩

/-! ## Lines -/

/-- Two layers for each word of a line, in the window of the line and in that of the word. -/
def HighlightsLine (line : List TimedWord) (row : List (Layer × Layer)) : Prop :=
  ∃ first latest, IsLineWindow line first latest ∧ List.Forall₂ (Highlights first latest) line row

theorem blockLayers_highlight (exact : rounding.IsExact) {block : WordBlock} {count place : Nat}
    {lines : List (List TimedWord)} {layers : List Layer} (hlines : ∀ line ∈ lines, line ≠ [])
    (hordered : ∀ line ∈ lines, ∀ word ∈ line, word.start.exactly.le word.stop.exactly = true)
    (h : blockLayers block count place lines = .ok layers) :
    ∃ rows, layers = flatPairs rows.flatten ∧ List.Forall₂ HighlightsLine lines rows := by
  induction lines generalizing place layers with
  | nil =>
    cases h
    exact ⟨[], rfl, .nil⟩
  | cons line lines ih =>
    rw [List.forall_mem_cons] at hlines hordered
    obtain ⟨first, rest, rfl⟩ := List.exists_cons_of_ne_nil hlines.1
    obtain ⟨step, -, h⟩ := bind_eq_ok.mp h
    obtain ⟨spacing, -, h⟩ := bind_eq_ok.mp h
    obtain ⟨spaced, -, h⟩ := bind_eq_ok.mp h
    obtain ⟨dy, -, h⟩ := bind_eq_ok.mp h
    obtain ⟨made, hmade, h⟩ := bind_eq_ok.mp h
    obtain ⟨others, hothers, h⟩ := bind_eq_ok.mp h
    cases pure_eq_ok.mp h
    obtain ⟨row, start, latest, rfl, hwindow, hrow⟩ := lineLayers_highlight exact hordered.1 hmade
    obtain ⟨rows, rfl, hrows⟩ := ih hlines.2 hordered.2 hothers
    refine ⟨row :: rows, ?_, .cons ⟨start, latest, hwindow, hrow⟩ hrows⟩
    rw [List.flatten_cons, flatPairs, flatPairs, flatPairs, List.flatMap_append]

omit rounding in
/-- A list that is cut into pieces is the pieces in a row, and each of them has something in it, and
not more than its size. -/
theorem piecesFrom_cut {α : Type} {size fuel : Nat} (hsize : 0 < size) {xs : List α}
    (hfuel : xs.length ≤ fuel) : (piecesFrom size fuel xs).flatten = xs ∧
      ∀ piece ∈ piecesFrom size fuel xs, piece ≠ [] ∧ piece.length ≤ size := by
  induction fuel generalizing xs with
  | zero =>
    cases List.eq_nil_of_length_eq_zero (Nat.le_zero.mp hfuel)
    simp [piecesFrom]
  | succ fuel ih =>
    cases xs with
    | nil => simp [piecesFrom]
    | cons x xs =>
      have hshorter : ((x :: xs).drop size).length ≤ fuel := by
        rw [List.length_drop]
        omega
      obtain ⟨hflatten, hpieces⟩ := ih hshorter
      rw [piecesFrom, List.flatten_cons, hflatten, List.take_append_drop, List.forall_mem_cons]
      · refine ⟨rfl, ⟨?_, List.length_take_le _ _⟩, hpieces⟩
        rw [Ne, List.take_eq_nil_iff]
        exact not_or.mpr ⟨hsize.ne', List.cons_ne_nil x xs⟩
      · simp

/-! ## Requests that are accepted -/

omit rounding in
theorem checkWordLimits_size {request : Request} {size : Int}
    (h : checkWordLimits request = .ok ())
    (hcount : (request.get "max_words_per_line").count = .ok size) : 1 ≤ size := by
  obtain ⟨below, hbelow, h⟩ := bind_eq_ok.mp h
  obtain ⟨n, hn, hbelow⟩ := bind_eq_ok.mp hbelow
  cases pure_eq_ok.mp hbelow
  obtain rfl : n = .whole size := by
    cases hvalue : request.get "max_words_per_line" <;> rw [hvalue] at hn hcount
    case bool b => cases hn; cases hcount; cases b <;> rfl
    case num m => cases hn; cases n <;> cases hcount; rfl
    all_goals cases hcount
  split at h
  · cases h
  · rename_i hroom
    rw [Number.lt, Quantity.lt_iff_value? (r := 1) rfl rfl, not_lt] at hroom
    exact_mod_cast hroom

/-- The name of a preset, or nothing where none is asked for. -/
def IsPreset (preset : Json) : Prop :=
  preset = .null ∨ ∃ name, preset = .str name ∧ (Style.wordPreset? name).isSome = true

omit rounding in
theorem exists_chosenPreset {preset : Json} (h : IsPreset preset) :
    ∃ chosen, chosenPreset preset = .ok chosen := by
  rcases h with rfl | ⟨name, rfl, hname⟩
  · exact ⟨none, rfl⟩
  · obtain ⟨chosen, hchosen⟩ := Option.isSome_iff_exists.mp hname
    refine ⟨some chosen, bind_eq_ok.mpr ⟨.str name, rfl, ?_⟩⟩
    dsimp only
    rw [hchosen]
    rfl

theorem exists_wordAnimation (glows : Bool) : ∃ animation,
    wordAnimation .null (.quantity (binary64 (2 / 10))) glows = .ok animation := by
  have hduration : (Decoder.quantity.such fun x ↦ Quantity.lt (.finite 0) x)
      (.quantity (binary64 (2 / 10))) = .ok (binary64 (2 / 10)) := if_pos (by decide +kernel)
  refine ⟨some { motion := if glows then .glow else .scale, duration := binary64 (2 / 10) }, ?_⟩
  cases glows <;>
  · refine constructing_eq_ok.mpr ?_
    show (Checked.toExcept (Animation.mk <$> _ <*> ((Decoder.quantity.such fun x ↦
      Quantity.lt (.finite 0) x) (.quantity (binary64 (2 / 10)))).within "duration" <*> _ <*> _
      <*> _ <*> _)).map some = _
    rw [hduration]
    rfl

/-- What a call gives for words with times, in lines of a size and with a preset or without one. -/
def wordsCall (words : List Json) (size : Int) (preset : Json) : List (String × Json) :=
  [("words", .arr words), ("max_words_per_line", .whole size), ("preset", preset)]

/-- A request for words that leaves all but the size of their lines and the preset open. -/
structure IsPlainRequest (request : Request) (words : List Json) (size : Int) (preset : Json) :
    Prop where
  words : request.get "words" = .arr words
  size : request.get "max_words_per_line" = .whole size
  preset : request.get "preset" = preset
  pace : request.get "words_per_second" = .quantity (.finite (5 / 2))
  position : request.get "position" = .str "center"
  spacing : request.get "line_spacing" = .quantity (.finite (3 / 2))
  rest : request.get "base_style" = .null
  active : request.get "highlight_style" = .null
  transition : request.get "highlight_transition" = .null
  duration : request.get "transition_duration" = .quantity (binary64 (2 / 10))

omit rounding in
theorem exists_wordsRequest (words : List Json) (size : Int) (preset : Json) : ∃ request,
    Request.complete wordsSignature (wordsCall words size preset) = .ok request ∧
      IsPlainRequest request words size preset := by
  obtain ⟨request, hrequest⟩ : ∃ request,
      Request.complete wordsSignature (wordsCall words size preset) = .ok request := ⟨_, rfl⟩
  have hget {name : String} {parameter : Parameter}
      (hfind : wordsSignature.find? (fun other ↦ other.name == name) = some parameter) :=
    Request.get_of_complete hrequest hfind
  exact ⟨request, hrequest, {
    words := (hget rfl).trans rfl
    size := (hget rfl).trans rfl
    preset := (hget rfl).trans rfl
    pace := (hget rfl).trans rfl
    position := (hget rfl).trans rfl
    spacing := (hget rfl).trans rfl
    rest := (hget rfl).trans rfl
    active := (hget rfl).trans rfl
    transition := (hget rfl).trans rfl
    duration := (hget rfl).trans rfl }⟩

namespace IsPlainRequest

variable {request : Request} {words : List Json} {size : Int} {preset : Json}
  (plain : IsPlainRequest request words size preset)

include plain

omit rounding in
theorem checkWordsGiven_eq : checkWordsGiven request = .ok () := by
  rw [checkWordsGiven, plain.words]
  cases request.get "text" <;> rfl

omit rounding in
theorem checkWordLimits_eq (hsize : 1 ≤ size) : checkWordLimits request = .ok () := by
  have hroom : (Number.whole size).lt 1 = false := by
    rw [← Bool.not_eq_true, Number.lt, Quantity.lt_iff_value? (r := 1) rfl rfl, not_lt]
    exact_mod_cast hsize
  rw [checkWordLimits, plain.size, plain.pace]
  show (if (Number.whole size).lt 1 = true then _ else
    if (Number.real (.finite (5 / 2))).le 0 = true then _ else _ : Except Error Unit) = _
  rw [hroom, if_neg Bool.false_ne_true, if_neg (by decide +kernel)]
  rfl

theorem exists_wordStyles (chosen : Option Style.WordPreset) :
    ∃ styles, wordStyles request chosen = .ok styles := by
  rw [wordStyles, plain.rest, plain.active]
  exact ⟨_, rfl⟩

theorem exists_animation (glows : Bool) : ∃ animation, wordAnimation
    (request.get "highlight_transition") (request.get "transition_duration") glows =
      .ok animation := by
  rw [plain.transition, plain.duration]
  exact exists_wordAnimation glows

end IsPlainRequest

end Timeline

section

variable (exact : rounding.IsExact)

include exact

namespace Number

/-- Exact numbers can always be added, subtracted and multiplied. -/
theorem exists_combine (onWhole : Int → Int → Int) (limited : Quantity → Quantity → Quantity)
    (m n : Number) : ∃ r, combine onWhole limited m n = .ok r := by
  rw [combine.eq_def]
  split
  · exact ⟨_, rfl⟩
  · rw [toQuantity_exactly exact, toQuantity_exactly exact]
    exact ⟨_, rfl⟩

theorem exists_half (n : Int) : ∃ r, (whole n).div 2 = .ok r := by
  rw [show (2 : Number) = whole 2 from rfl, div, if_neg two_ne_zero]
  split
  · exact ⟨_, rfl⟩
  · rw [exact]
    exact ⟨_, rfl⟩

end Number

namespace Timeline

/-- A window with finite times can be given to a word. -/
theorem exists_wordLayer {start stop : Number} {p q : Rat} (hp : start.exactly.value? = some p)
    (hq : stop.exactly.value? = some q) (word : String) (position : Position) (style : Style)
    (animation : Option Animation) :
    ∃ layer, wordLayer word start stop position style animation = .ok layer := by
  obtain ⟨difference, hsub, hdifference⟩ := Number.sub_of_value? exact hq hp
  have hlength := Number.max_of_value? (a := .real (.finite 0)) (p := 0) rfl hdifference
  obtain ⟨x, hx, hxvalue⟩ :=
    Json.quantity_of_value? exact (show (Json.num start).value? = some p from hp)
  obtain ⟨d, hd, hdvalue⟩ := Json.quantity_of_value? exact
    (show (Json.num (Number.max (.real (.finite 0)) difference)).value? = some _ from hlength)
  have hread : Layer.decodeStart (.num start) = .ok (Layer.clampStart x) := by
    rw [Layer.decodeStart, Decoder.such_of_ok hx (Quantity.isFinite_iff.mpr ⟨p, hxvalue⟩)]
    rfl
  have hspan : Decoder.optional Layer.decodeLength
      (.num (Number.max (.real (.finite 0)) difference)) = .ok (some d) := by
    have hlasting : (d.isFinite && !d.lt (.finite 0)) = true := by
      rw [Bool.and_eq_true, Bool.not_eq_true', ← Bool.not_eq_true,
        Quantity.lt_iff_value? hdvalue rfl, not_lt]
      exact ⟨Quantity.isFinite_iff.mpr ⟨_, hdvalue⟩, le_max_left _ _⟩
    exact congrArg (Checked.map some) (Decoder.such_of_ok hd hlasting)
  exact ⟨_, bind_eq_ok.mpr ⟨difference, hsub, constructing_eq_ok.mpr
    (Checked.toExcept_eq_ok.mpr (Layer.assemble_of_read rfl rfl hread hspan))⟩⟩

/-- A word with finite times. -/
def TimedWord.IsFinite (word : TimedWord) : Prop :=
  ∃ p q, word.start.exactly.value? = some p ∧ word.stop.exactly.value? = some q

theorem exists_fromMiddle (place count : Nat) : ∃ r, fromMiddle place count = .ok r := by
  obtain ⟨half, hhalf⟩ := Number.exists_half exact ((count : Int) - 1)
  obtain ⟨r, hr⟩ := Number.exists_combine exact (· - ·) Quantity.sub (.whole place) half
  exact ⟨r, bind_eq_ok.mpr ⟨half, hhalf, hr⟩⟩

theorem exists_movedBy (position : Position) (dx dy : Number) :
    ∃ moved, movedBy position dx dy = .ok moved := by
  obtain ⟨x, hx⟩ := Number.exists_combine exact (· + ·) Quantity.add position.dx dx
  obtain ⟨y, hy⟩ := Number.exists_combine exact (· + ·) Quantity.add position.dy dy
  exact ⟨_, bind_eq_ok.mpr ⟨x, hx, bind_eq_ok.mpr ⟨y, hy, rfl⟩⟩⟩

theorem exists_lineLayers {block : WordBlock} {lineStart lineStop dy : Number} {p q : Rat}
    (hp : lineStart.exactly.value? = some p) (hq : lineStop.exactly.value? = some q)
    {words : List TimedWord} (hwords : ∀ word ∈ words, word.IsFinite) (count place : Nat) :
    ∃ layers, lineLayers block lineStart lineStop dy count place words = .ok layers := by
  induction words generalizing place with
  | nil => exact ⟨[], rfl⟩
  | cons word rest ih =>
    rw [List.forall_mem_cons] at hwords
    obtain ⟨r, s, hr, hs⟩ := hwords.1
    obtain ⟨steps, hsteps⟩ := exists_fromMiddle exact place count
    obtain ⟨dx, hdx⟩ := Number.exists_combine exact (· * ·) Quantity.mul steps wordSpacing
    obtain ⟨position, hposition⟩ := exists_movedBy exact block.anchor dx dy
    obtain ⟨atRest, hrest⟩ := exists_wordLayer exact hp hq word.word position block.rest none
    obtain ⟨spoken, hspoken⟩ :=
      exists_wordLayer exact hr hs word.word position block.active block.animation
    obtain ⟨others, hothers⟩ := ih hwords.2 (place + 1)
    exact ⟨_, bind_eq_ok.mpr ⟨steps, hsteps, bind_eq_ok.mpr ⟨dx, hdx,
      bind_eq_ok.mpr ⟨position, hposition, bind_eq_ok.mpr ⟨atRest, hrest,
        bind_eq_ok.mpr ⟨spoken, hspoken, bind_eq_ok.mpr ⟨others, hothers, rfl⟩⟩⟩⟩⟩⟩⟩

theorem exists_blockLayers (block : WordBlock) {spacing : Number}
    (hspacing : block.lineSpacing.number = .ok spacing) {lines : List (List TimedWord)}
    (hlines : ∀ line ∈ lines, ∀ word ∈ line, word.IsFinite) (count place : Nat) :
    ∃ layers, blockLayers block count place lines = .ok layers := by
  induction lines generalizing place with
  | nil => exact ⟨[], rfl⟩
  | cons line lines ih =>
    rw [List.forall_mem_cons] at hlines
    obtain ⟨others, hothers⟩ := ih hlines.2 (place + 1)
    cases line with
    | nil => exact ⟨others, hothers⟩
    | cons first rest =>
      obtain ⟨p, q, hp, hq⟩ := hlines.1 first List.mem_cons_self
      obtain ⟨latest, hlatest, -⟩ := latestStop_isGreatest hq fun word hword ↦ by
        obtain ⟨_, q, -, hq⟩ := hlines.1 word (List.mem_cons_of_mem _ hword)
        exact ⟨q, hq⟩
      obtain ⟨steps, hsteps⟩ := exists_fromMiddle exact place count
      obtain ⟨spaced, hspaced⟩ := Number.exists_combine exact (· * ·) Quantity.mul steps spacing
      obtain ⟨dy, hdy⟩ := Number.exists_combine exact (· * ·) Quantity.mul spaced lineHeight
      obtain ⟨made, hmade⟩ : ∃ made, lineLayers block first.start (latestStop first.stop rest) dy
          (rest.length + 1) 0 (first :: rest) = .ok made :=
        exists_lineLayers exact hp hlatest hlines.1 _ _
      exact ⟨_, bind_eq_ok.mpr ⟨steps, hsteps, bind_eq_ok.mpr ⟨spacing, hspacing,
        bind_eq_ok.mpr ⟨spaced, hspaced, bind_eq_ok.mpr ⟨dy, hdy, bind_eq_ok.mpr ⟨made, hmade,
          bind_eq_ok.mpr ⟨others, hothers, rfl⟩⟩⟩⟩⟩⟩⟩

theorem exists_addWords (timeline : Timeline) {words : List Json} {timed : List TimedWord}
    {size : Int} {preset : Json} (htimed : words.mapM timedWord = .ok timed)
    (hfinite : ∀ word ∈ timed, word.IsFinite) (hsize : 1 ≤ size) (hpreset : IsPreset preset) :
    ∃ next, timeline.addWords (wordsCall words size preset) = .ok next := by
  obtain ⟨request, hrequest, plain⟩ := exists_wordsRequest words size preset
  obtain ⟨chosen, hchosen⟩ : ∃ chosen, chosenPreset (request.get "preset") = .ok chosen := by
    rw [plain.preset]
    exact exists_chosenPreset hpreset
  obtain ⟨styles, hstyles⟩ := plain.exists_wordStyles chosen
  obtain ⟨animation, hanimation⟩ := plain.exists_animation ((chosen.map (·.glows)).getD false)
  have hrequested : requestedWords request = .ok timed := by
    rw [requestedWords, plain.words]
    exact htimed
  obtain ⟨anchor, hanchor⟩ : ∃ anchor, Position.coerce (request.get "position") = .ok anchor := by
    rw [plain.position]
    exact ⟨_, rfl⟩
  have hcount : (request.get "max_words_per_line").count = .ok size := by
    rw [plain.size]
    rfl
  have hspacing : (request.get "line_spacing").number = .ok (.real (.finite (3 / 2))) := by
    rw [plain.spacing]
    rfl
  obtain ⟨hcut, -⟩ := piecesFrom_cut (show 0 < size.toNat by omega) (le_refl timed.length)
  have hlines : ∀ line ∈ pieces size.toNat timed, ∀ word ∈ line, word.IsFinite := by
    intro line hline word hword
    exact hfinite word (hcut ▸ List.mem_flatten.mpr ⟨line, hline, hword⟩)
  obtain ⟨layers, hlayers⟩ := exists_blockLayers exact
    { anchor, rest := styles.1, active := styles.2, animation
      lineSpacing := request.get "line_spacing" } hspacing hlines
    (pieces size.toNat timed).length 0
  exact ⟨timeline.append layers, bind_eq_ok.mpr ⟨request, hrequest, bind_eq_ok.mpr ⟨(),
    plain.checkWordsGiven_eq, bind_eq_ok.mpr ⟨chosen, hchosen, bind_eq_ok.mpr ⟨(),
      plain.checkWordLimits_eq hsize, bind_eq_ok.mpr ⟨styles, hstyles,
        bind_eq_ok.mpr ⟨animation, hanimation, bind_eq_ok.mpr ⟨timed, hrequested,
          bind_eq_ok.mpr ⟨anchor, constructing_eq_ok.mpr hanchor, bind_eq_ok.mpr ⟨size, hcount,
            bind_eq_ok.mpr ⟨layers, hlayers, rfl⟩⟩⟩⟩⟩⟩⟩⟩⟩⟩⟩

/-- Words that a call adds: two layers for each of them, behind the layers that were there, in the
order of the words and line by line. -/
structure IsHighlighted (timeline next : Timeline) (size : Nat) (timed : List TimedWord)
    (rows : List (List (Layer × Layer))) : Prop where
  next_eq : next = timeline.append (flatPairs rows.flatten)
  words : (pieces size timed).flatten = timed
  sizes : ∀ line ∈ pieces size timed, line ≠ [] ∧ line.length ≤ size
  rows : List.Forall₂ HighlightsLine (pieces size timed) rows

theorem addWords_isHighlighted {timeline next : Timeline} {given : List (String × Json)}
    {request : Request} {timed : List TimedWord}
    (hrequest : Request.complete wordsSignature given = .ok request)
    (htimed : requestedWords request = .ok timed)
    (hordered : ∀ word ∈ timed, word.start.exactly.le word.stop.exactly = true)
    (h : timeline.addWords given = .ok next) :
    ∃ (size : Nat) (rows : List (List (Layer × Layer))),
      (request.get "max_words_per_line").count = .ok size ∧
      IsHighlighted timeline next size timed rows := by
  obtain ⟨_, hrequest', h⟩ := bind_eq_ok.mp h
  cases hrequest.symm.trans hrequest'
  obtain ⟨_, -, h⟩ := bind_eq_ok.mp h
  obtain ⟨preset, -, h⟩ := bind_eq_ok.mp h
  obtain ⟨_, hlimits, h⟩ := bind_eq_ok.mp h
  obtain ⟨styles, -, h⟩ := bind_eq_ok.mp h
  obtain ⟨animation, -, h⟩ := bind_eq_ok.mp h
  obtain ⟨_, htimed', h⟩ := bind_eq_ok.mp h
  cases htimed.symm.trans htimed'
  obtain ⟨anchor, -, h⟩ := bind_eq_ok.mp h
  obtain ⟨size, hcount, h⟩ := bind_eq_ok.mp h
  obtain ⟨layers, hlayers, h⟩ := bind_eq_ok.mp h
  cases pure_eq_ok.mp h
  have hsize := checkWordLimits_size hlimits hcount
  obtain ⟨hflatten, hsizes⟩ := piecesFrom_cut (show 0 < size.toNat by omega) (le_refl timed.length)
  obtain ⟨rows, rfl, hrows⟩ := blockLayers_highlight exact
    (fun line hline ↦ (hsizes line hline).1)
    (fun line hline word hword ↦
      hordered word (hflatten ▸ List.mem_flatten.mpr ⟨line, hline, hword⟩)) hlayers
  refine ⟨size.toNat, rows, ?_, rfl, hflatten, hsizes, hrows⟩
  rw [hcount, Int.toNat_of_nonneg (by omega)]

/-- **A word is highlighted within its line, and until it ends, just if it does not begin before
zero, and not before its line unless it lasts for no time.**  Whatever words are accepted of which
none ends before it begins, each of them has a layer at rest and behind it one that covers it, in
one place.

Words with finite times are accepted in lines of any size, with any preset and without one. -/
theorem addWords_highlights (timeline : Timeline) :
    (∀ (given : List (String × Json)) (request : Request) (timed : List TimedWord)
      (next : Timeline),
      Request.complete wordsSignature given = .ok request → requestedWords request = .ok timed →
      (∀ word ∈ timed, word.start.exactly.le word.stop.exactly = true) →
      timeline.addWords given = .ok next →
      ∃ (size : Nat) (rows : List (List (Layer × Layer))),
        (request.get "max_words_per_line").count = .ok size ∧
        IsHighlighted timeline next size timed rows) ∧
    ∀ (words : List Json) (timed : List TimedWord) (size : Int) (preset : Json),
      words.mapM timedWord = .ok timed → (∀ word ∈ timed, word.IsFinite) → 1 ≤ size →
      IsPreset preset → ∃ next, timeline.addWords (wordsCall words size preset) = .ok next :=
  ⟨fun _ _ _ _ hrequest htimed hordered h ↦
      addWords_isHighlighted exact hrequest htimed hordered h,
    fun _ _ _ _ htimed hfinite hsize hpreset ↦
      exists_addWords exact timeline htimed hfinite hsize hpreset⟩

end Timeline
end

namespace Timeline

/-- Two words of which the second one is spoken first. -/
def swappedWords : List Json := [
  .arr [.str "b", .quantity (.finite 1), .quantity (.finite 2)],
  .arr [.str "a", .quantity (.finite 0), .quantity (.finite (1 / 2))]]

omit rounding in
/-- The word that is spoken first is highlighted before its layer at rest is there. -/
theorem swappedWords_uncovered : Rounding.exact.IsExact ∧ ∃ next first second third fourth,
    @addWords .exact {} (wordsCall swappedWords 5 .null) = .ok next ∧
    next.layers = [first, second, third, fourth] ∧
    @Layer.IsVisibleBetween .exact 1 2 third ∧ @Layer.IsVisibleBetween .exact 0 (1 / 2) fourth ∧
    ¬ @Layer.IsWithin .exact fourth third := by
  let _ : Rounding := .exact
  have exact := Rounding.exact_isExact
  let early : TimedWord := ⟨"a", .real (.finite 0), .real (.finite (1 / 2))⟩
  let late : TimedWord := ⟨"b", .real (.finite 1), .real (.finite 2)⟩
  obtain ⟨shows, accepts⟩ := addWords_highlights exact {}
  have hfinite : ∀ word ∈ [late, early], word.IsFinite := by
    rw [List.forall_mem_cons, List.forall_mem_singleton]
    exact ⟨⟨1, 2, rfl, rfl⟩, 0, 1 / 2, rfl, rfl⟩
  obtain ⟨next, hnext⟩ := accepts swappedWords _ 5 .null rfl hfinite (by decide) (.inl rfl)
  obtain ⟨size, rows, hcount, h⟩ := shows _ _ [late, early] next rfl rfl (by decide +kernel) hnext
  obtain rfl : size = 5 := by
    have hfive : (5 : Int) = size := Except.ok.inj hcount
    omega
  obtain ⟨row, rfl⟩ : ∃ row, rows = [row] := List.length_eq_one_iff.mp h.rows.length_eq.symm
  have hrows : List.Forall₂ HighlightsLine [[late, early]] [row] := h.rows
  obtain ⟨begin, latest, window, hrow⟩ := (List.forall₂_cons.mp hrows).1
  obtain ⟨first, second, rfl⟩ : ∃ first second, row = [first, second] :=
    List.length_eq_two.mp hrow.length_eq.symm
  obtain ⟨start, stop, hstart, hstop, hbase, hspoken, -⟩ :=
    (List.forall₂_cons.mp (List.forall₂_cons.mp hrow).2).1.windows
  obtain rfl : begin = 1 := by
    obtain ⟨word, hword, hvalue⟩ := window.first
    cases hword
    exact (Option.some.inj hvalue).symm
  obtain rfl : latest = 2 := by
    have hlate : 2 ≤ latest := window.latest.2 ⟨late, List.mem_cons_self, rfl⟩
    obtain ⟨word, hword, hvalue⟩ := window.latest.1
    rcases List.mem_cons.mp hword with rfl | hword
    · exact (Option.some.inj hvalue).symm
    · rw [List.mem_singleton.mp hword] at hvalue
      have hearly := Option.some.inj hvalue
      linarith
  cases hstart
  cases hstop
  have hvisible : second.1.IsVisibleBetween 1 2 := by
    convert hbase using 1 <;> norm_num
  have hcovers : second.2.IsVisibleBetween 0 (1 / 2) := by
    convert hspoken using 1 <;> norm_num
  refine ⟨exact, next, first.1, first.2, second.1, second.2, hnext, ?_, hvisible, hcovers,
    fun hwithin ↦ ?_⟩
  · rw [h.next_eq]
    rfl
  · have hseen := (hcovers (.finite 0) 0 le_rfl).mpr ⟨le_rfl, by norm_num⟩
    have hbegun := ((hvisible (.finite 0) 0 le_rfl).mp (hwithin (.finite 0) 0 le_rfl hseen)).1
    norm_num at hbegun

end Timeline
end Montage
