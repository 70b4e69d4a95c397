import Montage.Proofs.ReadingTime
import Montage.Proofs.Subtitle.Order
import Montage.Proofs.Text.Words
import Montage.Proofs.Timeline.AutoTimed
import Montage.Subtitle.Sentence

/-!
# Subtitles of sentences

Cutting a text into sentences loses nothing but the marks that it begins with
(`Subtitle.flatten_sentencesFrom`): a mark that stands behind anything else ends a sentence and
belongs to it.  Trimming the sentences then loses blanks, and leaves nothing that is blank.

The subtitles of the sentences take turns.  Each of them begins where the one before it has left the
time, which is behind its reading time and the gap; that is not before its end, as a length and a
pause lead no less far than the length alone (`Number.add_pause_lt`).  Both sums are rounded, and
the length and the gap may be added as whole numbers before that.

"No earlier" is all that can be said in general.  An undefined bound of the reading time makes times
undefined, which are neither earlier nor later than anything.  If the lower bound is not below zero,
then all times are defined and in order (`Subtitle.ofSentences_areSentencesOf`).
-/

set_option autoImplicit false

namespace Montage
namespace Subtitle

/-! ## Sentences -/

/-- Nothing is lost in front of a sentence that has begun, and nothing but marks otherwise. -/
theorem flatten_sentencesFrom (current : List Char) (ended : Bool) (s : List Char) :
    (sentencesFrom current ended s).flatten =
      current.reverse ++ if current.isEmpty then s.dropWhile isSentenceEnd else s := by
  induction s generalizing current ended with
  | nil => cases current <;> simp [sentencesFrom]
  | cons c rest ih =>
    rw [sentencesFrom]
    split
    · rename_i hmark
      split
      · rename_i hempty
        rw [ih, List.isEmpty_iff.mp hempty, List.dropWhile_cons_of_pos hmark]
        rfl
      · rw [ih, List.reverse_cons, List.append_assoc]
        rfl
    · rename_i hmark
      -- what is no mark begins a sentence, so that nothing is dropped from here on
      rw [List.dropWhile_cons_of_neg hmark, ite_self]
      split
      · rw [List.flatten_cons, ih]
        rfl
      · rw [ih, List.reverse_cons, List.append_assoc]
        rfl

/-- **The sentences of a text hold all of it, apart from blanks and from the marks in front.** -/
theorem filter_flatten_sentences (s : List Char) :
    (sentences s).flatten.filter (!Montage.isBlank ·) =
      (s.dropWhile isSentenceEnd).filter (!Montage.isBlank ·) := by
  have hparts (parts : List (List Char)) :
      ((parts.map trim).flatten).filter (!Montage.isBlank ·) =
        parts.flatten.filter (!Montage.isBlank ·) := by
    rw [List.filter_flatten, List.filter_flatten, List.map_map]
    exact congrArg _ (List.map_congr_left fun part _ ↦ filter_trim part)
  rw [Subtitle.sentences, List.flatten_filter_not_isEmpty, hparts, flatten_sentencesFrom]
  rfl

/-- What a sentence of a text is like: there is something in it, and no blank at its ends. -/
structure IsSentence (s sentence : List Char) : Prop where
  inhabited : sentence ≠ []
  trimmed : trim sentence = sentence
  length_le : sentence.length ≤ s.length

theorem isSentence_of_mem {s sentence : List Char} (h : sentence ∈ sentences s) :
    IsSentence s sentence := by
  rw [sentences, List.mem_filter, List.mem_map] at h
  obtain ⟨⟨part, hpart, rfl⟩, hne⟩ := h
  refine ⟨by simpa using hne, trim_trim part, ?_⟩
  obtain ⟨front, back, -, -, hends⟩ := exists_trim_append part
  have htrim : (trim part).length ≤ part.length := by
    have := congrArg List.length hends
    simp only [List.length_append] at this
    omega
  calc
    (trim part).length ≤ (sentencesFrom [] false s).flatten.length :=
      htrim.trans (List.sublist_flatten_of_mem hpart).length_le
    _ ≤ s.length := by
      rw [flatten_sentencesFrom]
      exact (List.dropWhile_sublist isSentenceEnd).length_le

/-! ## Turns -/

section

variable [rounding : Rounding]

/-- A sentence stays for its reading time, and the next one begins after that and the gap. -/
def TakesTurn (pace : ReadingPace) (gap : Json) (sentence : List Char) (stay turn : Quantity) :
    Prop :=
  ∃ time length pause sum, pace.time (.str (String.ofList sentence)) = .ok time ∧
    time.number? = some length ∧ gap.number? = some pause ∧ length.add pause = .ok sum ∧
    length.toQuantity = .ok stay ∧ sum.toQuantity = .ok turn

/-- The subtitle of a sentence that is spoken at a place and a time. -/
def spoken (place : Nat) (sentence : List Char) (start stop : Quantity) : Subtitle := {
  id := "srt_" ++ toString place, index := place, text := String.ofList sentence, start, stop }

variable {pace : ReadingPace} {gap : Json} {place : Nat} {x : Quantity}
  {sentence : List Char} {rest sentences : List (List Char)} {subtitles : List Subtitle}

/-- One sentence after the other takes its turn. -/
theorem spokenFrom_cons_eq_ok :
    spokenFrom pace gap place (.real x) (sentence :: rest) = .ok subtitles ↔
      ∃ stay turn others, TakesTurn pace gap sentence stay turn ∧
        spokenFrom pace gap (place + 1) (.real (x.add turn)) rest = .ok others ∧
        subtitles = spoken place sentence x (x.add stay) :: others := by
  constructor
  · intro h
    obtain ⟨time, htime, h⟩ := bind_eq_ok.mp h
    obtain ⟨length, hlength, h⟩ := bind_eq_ok.mp h
    obtain ⟨stop, hstop, h⟩ := bind_eq_ok.mp h
    obtain ⟨start, hstart, h⟩ := bind_eq_ok.mp h
    obtain ⟨last, hlast, h⟩ := bind_eq_ok.mp h
    obtain ⟨pause, hpause, h⟩ := bind_eq_ok.mp h
    obtain ⟨sum, hsum, h⟩ := bind_eq_ok.mp h
    obtain ⟨next, hnext, h⟩ := bind_eq_ok.mp h
    obtain ⟨others, hothers, h⟩ := bind_eq_ok.mp h
    cases pure_eq_ok.mp h
    -- the time is a quantity, so that both sums are
    rcases Number.combine_eq_ok hstop with ⟨_, _, hreal, -, -⟩ | ⟨-, _, stay, hx, hstay, rfl⟩
    · cases hreal
    rcases Number.combine_eq_ok hnext with ⟨_, _, hreal, -, -⟩ | ⟨-, _, turn, hx', hturn, rfl⟩
    · cases hreal
    cases hx
    cases hx'
    cases hstart
    cases hlast
    exact ⟨stay, turn, others, ⟨time, length, pause, sum, htime, Json.number_eq_ok.mp hlength,
      Json.number_eq_ok.mp hpause, hsum, hstay, hturn⟩, hothers, rfl⟩
  · rintro ⟨stay, turn, others, ⟨time, length, pause, sum, htime, hlength, hpause, hsum, hstay,
      hturn⟩, hothers, rfl⟩
    rw [spokenFrom, bind_of_ok htime, bind_of_ok (Json.number_eq_ok.mpr hlength),
      bind_of_ok (Number.real_add hstay x)]
    dsimp only
    rw [bind_of_ok (show (Number.real x).toQuantity = .ok x from rfl),
      bind_of_ok (show (Number.real (x.add stay)).toQuantity = .ok _ from rfl),
      bind_of_ok (Json.number_eq_ok.mpr hpause), bind_of_ok hsum,
      bind_of_ok (Number.real_add hturn x),
      bind_of_ok hothers]
    rfl

/-! ### The times of a turn -/

/-- All numbers that times are made of are on the grid, and the gap is not below zero. -/
structure IsPaced (pace : ReadingPace) (gap : Json) : Prop where
  padding : pace.padding.IsOnGrid
  longest : pace.longest.IsOnGrid
  shortest : pace.shortest.IsOnGrid
  gapOnGrid : gap.IsOnGrid
  forward : ∃ n, gap.number? = some n ∧ Number.le 0 n = true

/-- **The next sentence does not begin before the end of one.** -/
theorem TakesTurn.turn_lt (grid : rounding.IsGrid) (monotone : rounding.IsMonotone)
    (paced : IsPaced pace gap) {stay turn : Quantity} (h : TakesTurn pace gap sentence stay turn) :
    stay.IsOnGrid ∧ turn.IsOnGrid ∧ turn.lt stay = false := by
  obtain ⟨time, length, pause, sum, htime, hlength, hpause, hsum, hstay, hturn⟩ := h
  obtain ⟨_, hforward, forward⟩ := paced.forward
  cases hpause.symm.trans hforward
  obtain ⟨seconds, _, hseconds, -, hcases⟩ := ReadingPace.time_eq_ok htime
  have htimegrid : time.IsOnGrid := by
    rcases hcases with rfl | ⟨rfl | rfl, -⟩
    · exact paced.shortest
    · rintro _ ⟨⟩
      exact Timeline.isOnGrid_seconds grid paced.padding hseconds
    · exact paced.longest
  have hlengthgrid := htimegrid length hlength
  have hpausegrid := paced.gapOnGrid pause hpause
  have hsumgrid : sum.IsOnGrid :=
    Number.IsOnGrid.combine grid (fun _ _ ↦ Quantity.IsOnGrid.add grid) hlengthgrid hpausegrid hsum
  exact ⟨hlengthgrid.toQuantity grid hstay, hsumgrid.toQuantity grid hturn,
    Number.add_pause_lt grid monotone hlengthgrid hpausegrid forward hstay hsum hturn⟩

/-- Where no reading time is below zero, no turn goes back. -/
theorem TakesTurn.nonnegative (monotone : rounding.IsMonotone) {shortest pause : Number}
    (hshortest : pace.shortest.number? = some shortest) (hlow : Number.le 0 shortest = true)
    (hpause : gap.number? = some pause) (forward : Number.le 0 pause = true) {stay turn : Quantity}
    (h : TakesTurn pace gap sentence stay turn) :
    Quantity.le (.finite 0) stay = true ∧ Quantity.le (.finite 0) turn = true := by
  obtain ⟨time, length, _, sum, htime, hlength, hpause', hsum, hstay, hturn⟩ := h
  cases hpause.symm.trans hpause'
  obtain ⟨_, _, -, hshortest', hcases⟩ := ReadingPace.time_eq_ok htime
  cases hshortest.symm.trans hshortest'
  have hlengthlow : Number.le 0 length = true := by
    rcases hcases with rfl | ⟨-, n, hn, hlt⟩
    · cases hshortest.symm.trans hlength
      exact hlow
    · cases hn.symm.trans hlength
      exact Quantity.le_trans hlow (Quantity.le_of_lt hlt)
  exact ⟨Number.zero_le_toQuantity monotone hlengthlow hstay,
    Number.zero_le_toQuantity monotone (Number.zero_le_add monotone hlengthlow forward hsum) hturn⟩

/-! ### Rows of subtitles -/

theorem texts_spokenFrom (h : spokenFrom pace gap place (.real x) sentences = .ok subtitles) :
    subtitles.map text = sentences.map String.ofList := by
  induction sentences generalizing place x subtitles with
  | nil => cases h; rfl
  | cons sentence rest ih =>
    obtain ⟨stay, turn, others, -, hothers, rfl⟩ := spokenFrom_cons_eq_ok.mp h
    rw [List.map_cons, List.map_cons, ih hothers]
    rfl

theorem names_spokenFrom (h : spokenFrom pace gap place (.real x) sentences = .ok subtitles) :
    ∀ k (hk : k < subtitles.length), subtitles[k].index = ((place + k : Nat) : Int) ∧
      subtitles[k].id = "srt_" ++ toString subtitles[k].index := by
  induction sentences generalizing place x subtitles with
  | nil => cases h; rintro k ⟨⟩
  | cons sentence rest ih =>
    obtain ⟨stay, turn, others, -, hothers, rfl⟩ := spokenFrom_cons_eq_ok.mp h
    rintro (- | k) hk
    · exact ⟨rfl, rfl⟩
    · have hname := ih hothers k (Nat.lt_of_succ_lt_succ hk)
      rw [List.getElem_cons_succ]
      exact ⟨by rw [hname.1]; congr 1; omega, hname.2⟩

/-- A row begins at the time that it is spoken from. -/
theorem start_head?_spokenFrom
    (h : spokenFrom pace gap place (.real x) sentences = .ok subtitles) :
    ∀ subtitle ∈ subtitles.head?, subtitle.start = x := by
  cases sentences with
  | nil => cases h; rintro _ ⟨⟩
  | cons sentence rest =>
    obtain ⟨stay, turn, others, -, -, rfl⟩ := spokenFrom_cons_eq_ok.mp h
    rintro _ ⟨⟩
    rfl

/-- **Subtitles in a row take turns**, from any time of the grid on. -/
theorem isChain_spokenFrom (grid : rounding.IsGrid) (monotone : rounding.IsMonotone)
    (paced : IsPaced pace gap) (hx : x.IsOnGrid)
    (h : spokenFrom pace gap place (.real x) sentences = .ok subtitles) :
    subtitles.IsChain fun before after ↦ after.start.lt before.stop = false := by
  induction sentences generalizing place x subtitles with
  | nil => cases h; exact .nil
  | cons sentence rest ih =>
    obtain ⟨stay, turn, others, hturn, hothers, rfl⟩ := spokenFrom_cons_eq_ok.mp h
    obtain ⟨hstaygrid, hturngrid, hlt⟩ := hturn.turn_lt grid monotone paced
    refine List.isChain_cons.mpr
      ⟨fun after hafter ↦ ?_, ih (Quantity.IsOnGrid.add grid hx hturngrid) hothers⟩
    rw [start_head?_spokenFrom hothers after hafter]
    exact Quantity.add_lt_add_left grid monotone hx hstaygrid hturngrid hlt

/-- Where no reading time is below zero, all times are defined and not below zero. -/
theorem nonnegative_spokenFrom (monotone : rounding.IsMonotone) {shortest pause : Number}
    (hshortest : pace.shortest.number? = some shortest) (hlow : Number.le 0 shortest = true)
    (hpause : gap.number? = some pause) (forward : Number.le 0 pause = true) (hx : x.IsRounded)
    (h : spokenFrom pace gap place (.real x) sentences = .ok subtitles) :
    ∀ subtitle ∈ subtitles, Quantity.le (.finite 0) subtitle.start = true ∧
      Quantity.le (.finite 0) subtitle.stop = true := by
  induction sentences generalizing place x subtitles with
  | nil => cases h; rintro _ ⟨⟩
  | cons sentence rest ih =>
    obtain ⟨stay, turn, others, hturn, hothers, rfl⟩ := spokenFrom_cons_eq_ok.mp h
    have keeps := monotone.toKeepsOrder
    obtain ⟨hstaylow, hturnlow⟩ := hturn.nonnegative monotone hshortest hlow hpause forward
    refine List.forall_mem_cons.mpr ⟨⟨hx.nonnegative, ?_⟩, ih (hx.add keeps hturnlow) hothers⟩
    exact (hx.add keeps hstaylow).nonnegative

/-- Sentences that are not too long can all be spoken. -/
theorem exists_spokenFrom (grid : rounding.IsGrid) (monotone : rounding.IsMonotone)
    (readable : pace.IsReadable) (hgap : gap.IsModest)
    (hsentences : ∀ sentence ∈ sentences, sentence.length ≤ Number.modestLimit) :
    ∃ subtitles, spokenFrom pace gap place (.real x) sentences = .ok subtitles := by
  induction sentences generalizing place x with
  | nil => exact ⟨[], rfl⟩
  | cons sentence rest ih =>
    rw [List.forall_mem_cons] at hsentences
    have hwords : wordCount (String.ofList sentence) ≤ Number.modestLimit := by
      rw [wordCount, wordsOf_eq, List.length_map, String.toList_ofList]
      exact (length_wordsIn_le sentence).trans hsentences.1
    obtain ⟨time, htime, length, hlength, hmodest⟩ :=
      ReadingPace.exists_time grid monotone readable hwords
    obtain ⟨pause, hpause, hmodest'⟩ := hgap
    obtain ⟨stay, hstay⟩ := hmodest.exists_toQuantity grid monotone
    obtain ⟨sum, turn, hsum, hturn⟩ := hmodest.exists_add grid monotone hmodest'
    obtain ⟨others, hothers⟩ : ∃ others,
        spokenFrom pace gap (place + 1) (.real (x.add turn)) rest = .ok others := ih hsentences.2
    exact ⟨_, spokenFrom_cons_eq_ok.mpr ⟨stay, turn, others, ⟨time, length, pause, sum, htime,
      hlength, hpause, hsum, hstay, hturn⟩, hothers, rfl⟩⟩

/-! ## Texts -/

omit rounding in
/-- The subtitles show a text one sentence after the other. -/
structure AreSentencesOf (text : String) (subtitles : List Subtitle) : Prop where
  complete : (subtitles.flatMap (·.text.toList)).filter (!Montage.isBlank ·) =
    (text.toList.dropWhile isSentenceEnd).filter (!Montage.isBlank ·)
  filled : ∀ subtitle ∈ subtitles, subtitle.isBlank = false
  trimmed : ∀ subtitle ∈ subtitles, Montage.trimmed subtitle.text = subtitle.text
  numbered : IsNumbered subtitles
  named : ∀ subtitle ∈ subtitles, subtitle.id = "srt_" ++ toString subtitle.index
  inTurn : subtitles.IsChain fun before after ↦ after.start.lt before.stop = false

theorem areSentencesOf_spokenFrom (grid : rounding.IsGrid) (monotone : rounding.IsMonotone)
    (paced : IsPaced pace gap) {s : String}
    (h : spokenFrom pace gap 1 (.real (.finite 0)) (Subtitle.sentences s.toList) = .ok subtitles) :
    AreSentencesOf s subtitles := by
  have htexts := texts_spokenFrom h
  have hmem : ∀ subtitle ∈ subtitles, IsSentence s.toList subtitle.text.toList := by
    intro subtitle hsubtitle
    have htext : subtitle.text ∈ (Subtitle.sentences s.toList).map String.ofList :=
      htexts ▸ List.mem_map_of_mem hsubtitle
    obtain ⟨sentence, hsentence, htext⟩ := List.mem_map.mp htext
    rw [← htext, String.toList_ofList]
    exact isSentence_of_mem hsentence
  refine ⟨?_, fun subtitle hsubtitle ↦ ?_, fun subtitle hsubtitle ↦ ?_, fun k hk ↦ ?_,
    fun subtitle hsubtitle ↦ ?_, isChain_spokenFrom grid monotone paced
      (Quantity.isOnGrid_zero false) h⟩
  · have hflat : subtitles.flatMap (·.text.toList) = (Subtitle.sentences s.toList).flatten :=
      calc
        _ = (subtitles.map text).flatMap String.toList := by rw [List.flatMap_map]
        _ = (Subtitle.sentences s.toList).flatten := by
          simp only [htexts, List.flatMap_map, String.toList_ofList, List.flatMap_id']
    rw [hflat, filter_flatten_sentences]
  · exact all_isBlank_of_trim (hmem subtitle hsubtitle).inhabited (hmem subtitle hsubtitle).trimmed
  · rw [Montage.trimmed, (hmem subtitle hsubtitle).trimmed, String.ofList_toList]
  · rw [(names_spokenFrom h k hk).1]
    push_cast
    exact add_comm 1 (k : Int)
  · obtain ⟨k, hk, rfl⟩ := List.mem_iff_getElem.mp hsubtitle
    exact (names_spokenFrom h k hk).2

omit rounding in
/-- The numbers that times are made of. -/
def sentenceTimes : List String := ["min_duration", "max_duration", "gap"]

omit rounding in
/-- A call with a speed above zero and a gap that is not below zero, in which all numbers are on the
grid. -/
structure IsSentencesCall (given : List (String × Json)) (request : Request) : Prop where
  complete : Request.complete sentenceSignature given = .ok request
  speed : ∃ n, (request.get "words_per_minute").number? = some n ∧ Number.lt 0 n = true
  forward : ∃ n, (request.get "gap").number? = some n ∧ Number.le 0 n = true
  onGrid : ∀ name ∈ sentenceTimes, (request.get name).IsOnGrid

/-- The pace of a request. -/
def paceOf (request : Request) : ReadingPace := {
  wordsPerMinute := request.get "words_per_minute", shortest := request.get "min_duration"
  longest := request.get "max_duration", padding := .quantity (.finite 0) }

variable {given : List (String × Json)} {request : Request}

theorem IsSentencesCall.ofSentences_eq (call : IsSentencesCall given request) (s : String) :
    ofSentences (.str s) given = spokenFrom (paceOf request) (request.get "gap") 1
      (.real (.finite 0)) (Subtitle.sentences s.toList) := by
  rw [ofSentences, bind_of_ok call.complete]
  rfl

omit rounding in
theorem IsSentencesCall.isPaced (call : IsSentencesCall given request) :
    IsPaced (paceOf request) (request.get "gap") where
  padding := by rintro _ ⟨⟩ _ ⟨⟩; exact isOnGrid_zero
  longest := call.onGrid _ (by decide)
  shortest := call.onGrid _ (by decide)
  gapOnGrid := call.onGrid _ (by decide)
  forward := call.forward

omit rounding in
theorem IsSentencesCall.isReadable (call : IsSentencesCall given request)
    (modest : ∀ name ∈ sentenceTimes, (request.get name).IsModest) :
    (paceOf request).IsReadable where
  speed := call.speed
  padding := ⟨_, rfl, by rintro _ ⟨⟩⟩
  longest := modest _ (by decide)
  shortest := modest _ (by decide)

end

attribute [local instance] Rounding.binary64

/-- **Cutting a text into subtitles loses no text, and the subtitles take turns.**  Every text has
subtitles at every speed above zero and with every gap that is not below zero, if the times are
numbers and no whole number is too large for a quantity.  Together, blanks apart, they hold the text
without the marks in front; none is blank or has blanks at its ends, they are counted from one and
named after that, and each starts no earlier than the one before it ends.  If the least time is not
below zero, then all starts and ends are defined and in that order. -/
theorem ofSentences_areSentencesOf {given : List (String × Json)} {request : Request}
    (call : IsSentencesCall given request) (text : String) :
    ((∀ name ∈ sentenceTimes, (request.get name).IsModest) → text.length ≤ Number.modestLimit →
      ∃ subtitles, ofSentences (.str text) given = .ok subtitles) ∧
    ∀ subtitles, ofSentences (.str text) given = .ok subtitles →
      AreSentencesOf text subtitles ∧
      ((∃ n, (request.get "min_duration").number? = some n ∧ Number.le 0 n = true) →
        subtitles.IsChain fun before after ↦ before.stop.le after.start = true) := by
  rw [call.ofSentences_eq]
  refine ⟨fun modest hlength ↦ ?_, fun subtitles h ↦ ?_⟩
  · refine exists_spokenFrom binary64_isGrid binary64_isMonotone (call.isReadable modest)
      (modest _ (by decide)) fun sentence hsentence ↦ ?_
    rw [← String.length_toList] at hlength
    exact (isSentence_of_mem hsentence).length_le.trans hlength
  · have sentencesOf := areSentencesOf_spokenFrom binary64_isGrid binary64_isMonotone call.isPaced h
    refine ⟨sentencesOf, ?_⟩
    rintro ⟨shortest, hshortest, hlow⟩
    obtain ⟨pause, hpause, forward⟩ := call.forward
    have hdefined := nonnegative_spokenFrom binary64_isMonotone hshortest hlow hpause forward
      (Quantity.IsRounded.zero binary64_isMonotone.toKeepsOrder) h
    refine sentencesOf.inTurn.imp_of_mem_imp fun before after hbefore hafter hlt ↦ ?_
    rwa [Quantity.lt_eq_false (Quantity.le_defined (hdefined after hafter).1).2
      (Quantity.le_defined (hdefined before hbefore).2).2] at hlt

/-- A short text that begins with marks, and a quick speaker. -/
theorem ofSentences_wait :
    ∃ subtitles, ofSentences (.str "...Wait... what?! Ok") [("words_per_minute", .whole 240)] =
        .ok subtitles ∧
      subtitles.map text = ["Wait...", "what?!", "Ok"] ∧
      AreSentencesOf "...Wait... what?! Ok" subtitles ∧
      subtitles.IsChain fun before after ↦ before.stop.le after.start = true := by
  obtain ⟨request, hrequest⟩ : ∃ request,
      Request.complete sentenceSignature [("words_per_minute", .whole 240)] = .ok request := ⟨_, rfl⟩
  have hget {name : String} {parameter : Parameter}
      (hfind : sentenceSignature.find? (fun other ↦ other.name == name) = some parameter) :=
    Request.get_of_complete hrequest hfind
  have hspeed : request.get "words_per_minute" = .whole 240 := (hget rfl).trans rfl
  have hshortest : request.get "min_duration" = .quantity (.finite 1) := (hget rfl).trans rfl
  have hlongest : request.get "max_duration" = .quantity (.finite 5) := (hget rfl).trans rfl
  have hgap : request.get "gap" = .quantity (binary64 (1 / 10)) := (hget rfl).trans rfl
  have hquantity {x : Quantity} (hx : x.IsOnGrid) : (Json.quantity x).IsOnGrid := by
    rintro _ ⟨⟩
    exact hx
  have hmodest (x : Quantity) : (Json.quantity x).IsModest := ⟨_, rfl, by rintro _ ⟨⟩⟩
  have hfive : Montage.IsOnGrid 5 := by decide +kernel
  have call : IsSentencesCall [("words_per_minute", .whole 240)] request := by
    refine ⟨hrequest, ⟨_, by rw [hspeed]; rfl, by decide⟩, ⟨_, by rw [hgap]; rfl, by decide +kernel⟩,
      ?_⟩
    rw [sentenceTimes, List.forall_mem_cons, List.forall_mem_cons, List.forall_mem_singleton,
      hshortest, hlongest, hgap]
    exact ⟨hquantity (by rintro _ ⟨⟩; exact isOnGrid_one), hquantity (by rintro _ ⟨⟩; exact hfive),
      hquantity (binary64_isGrid.round _)⟩
  have modest : ∀ name ∈ sentenceTimes, (request.get name).IsModest := by
    rw [sentenceTimes, List.forall_mem_cons, List.forall_mem_cons, List.forall_mem_singleton,
      hshortest, hlongest, hgap]
    exact ⟨hmodest _, hmodest _, hmodest _⟩
  have hlength : "...Wait... what?! Ok".length ≤ Number.modestLimit := by decide +kernel
  obtain ⟨hexists, hall⟩ := ofSentences_areSentencesOf call "...Wait... what?! Ok"
  obtain ⟨subtitles, h⟩ := hexists modest hlength
  obtain ⟨sentencesOf, hchain⟩ := hall subtitles h
  refine ⟨subtitles, h, ?_, sentencesOf, hchain ⟨_, by rw [hshortest]; rfl, by decide⟩⟩
  have htexts : (ofSentences (.str "...Wait... what?! Ok")
      [("words_per_minute", .whole 240)]).toOption.map (·.map text) =
      some ["Wait...", "what?!", "Ok"] := by decide +kernel
  rw [h] at htexts
  exact Option.some.inj htexts

end Subtitle
end Montage
