import Mathlib.Data.List.Chain
import Montage.Proofs.Document.Field
import Montage.Proofs.Number.Span
import Montage.Proofs.Timeline.Captions
import Montage.Proofs.Timeline.Valid

/-!
# Captions that follow one another

A caption that says no start begins where the cursor stands.  Its layer then starts no earlier than
the layer of the caption before it, and no later than that ends (`Timeline.addCaptions_leadTo`),
wherever that caption got its times from.  The step is one of numbers: the cursor moves by a share
of the length (`Number.moved_by_share`), and moving a start to zero keeps the order
(`Layer.clampStart_le`).

The one overlap for which this does not hold is the whole number zero.  The cursor is then computed
from what was given and not from what the layer got: whole numbers are added before they are
rounded, and texts are put one behind the other.
-/

set_option autoImplicit false

namespace Montage

section

variable [rounding : Rounding]

/-! ## Layers behind a span -/

namespace Layer

/-- The layer lasts until another one starts. -/
def LastsUntil (before after : Layer) : Prop :=
  ∃ stop, before.endTime = some stop ∧ after.startTime.le stop = true

variable {x y z : Quantity} {p q : Rat}

omit rounding in
theorem clampStart_le (h : x.le y = true) : (clampStart x).le (clampStart y) = true := by
  obtain ⟨hx, hy⟩ := Quantity.le_defined h
  have hdefined {z : Quantity} (hz : z ≠ .undefined) : clampStart z ≠ .undefined := by
    rw [clampStart, Quantity.max]
    split
    · exact hz
    · rintro ⟨⟩
  rw [Quantity.le_iff (hdefined hx) (hdefined hy), clampStart, clampStart,
    Quantity.rank_max (by rintro ⟨⟩) hx, Quantity.rank_max (by rintro ⟨⟩) hy]
  exact max_le_max_left _ ((Quantity.le_iff hx hy).mp h)

/-- What starts before a span ends does so as a layer, also where the span begins before zero. -/
theorem clampStart_le_end (grid : rounding.IsGrid) (monotone : rounding.IsMonotone)
    (span : Quantity.IsSpan x y p q) (hz : z.le (rounding.round (max 0 p + q)) = true) :
    (clampStart z).le ((clampStart x).add y) = true := by
  have hgrid : (Quantity.finite (max 0 p)).IsOnGrid := by
    rintro _ ⟨⟩
    rcases max_choice 0 p with h | h <;> rw [h]
    · exact isOnGrid_zero
    · exact span.beginsOnGrid p span.begins
  have hstop := Quantity.same_add grid rfl span.lasts hgrid span.lastsOnGrid
  rw [clampStart_of_value? span.begins, Quantity.Same.le_eq (.refl _) hstop, clampStart,
    Quantity.max]
  split
  · exact hz
  · rw [← monotone.zero]
    exact monotone.monotone _ _ (add_nonneg (le_max_left 0 p) span.nonnegative)

/-- What starts within a span starts within it as a layer. -/
theorem clampStart_within (grid : rounding.IsGrid) (monotone : rounding.IsMonotone)
    (span : Quantity.IsSpan x y p q) {r : Rat} (hr : 0 ≤ r) (hrq : r ≤ q)
    (hz : Quantity.Same z (rounding.round (p + r))) :
    (clampStart x).le (clampStart z) = true ∧
      (clampStart z).le ((clampStart x).add y) = true := by
  constructor
  · refine clampStart_le ?_
    rw [Quantity.Same.le_eq (Quantity.Same.of_value? (y := .finite p) span.begins rfl) hz,
      ← grid.fixed p (span.beginsOnGrid p span.begins)]
    exact monotone.monotone p (p + r) (by linarith)
  · refine clampStart_le_end grid monotone span ?_
    rw [Quantity.Same.le_eq hz (.refl _)]
    exact monotone.monotone _ _ (add_le_add (le_max_right 0 p) hrq)

/-- The quantity of a small whole number is the number. -/
theorem value_of_round (grid : rounding.IsGrid) {n : Int} (hlow : 0 ≤ n) (hhigh : n < 2 ^ 53)
    (hround : rounding.round n = x) (hx : x.value? = some p) : p = n := by
  obtain ⟨n, rfl⟩ := Int.eq_ofNat_of_zero_le hlow
  have hgrid : Montage.IsOnGrid ((n : Int) : Rat) := by
    rw [Int.cast_natCast]
    exact isOnGrid_natCast (by omega)
  rw [grid.fixed _ hgrid] at hround
  cases hround
  exact (Option.some.inj hx).symm

/-- Whole numbers are added before they are rounded, so what lies behind a span of whole numbers
starts within it as long as it starts at a small number. -/
theorem clampStart_whole (grid : rounding.IsGrid) (monotone : rounding.IsMonotone) {m n : Int}
    (span : Quantity.IsSpan x y p q) (hx : (Number.whole m).toQuantity = .ok x)
    (hy : (Number.whole n).toQuantity = .ok y) (hz : (Number.whole (m + n)).toQuantity = .ok z) :
    (clampStart x).le (clampStart z) = true ∧
      ((clampStart z).lt (.finite (2 ^ 53)) = true →
        (clampStart z).le ((clampStart x).add y) = true) := by
  have hxround := Number.round_of_toQuantity hx
  have hyround := Number.round_of_toQuantity hy
  have hzround := Number.round_of_toQuantity hz
  have hn : 0 ≤ n := by
    by_contra hneg
    have hbelow : (n : Rat) ≤ -1 := by exact_mod_cast (by omega : n ≤ -1)
    have hle := monotone.monotone n (-1) hbelow
    rw [hyround, grid.fixed _ (isOnGrid_neg isOnGrid_one),
      Quantity.le_iff_value? span.lasts rfl] at hle
    linarith [span.nonnegative]
  have hle := monotone.monotone m (m + n : Int) (by exact_mod_cast (by omega : m ≤ m + n))
  rw [hxround, hzround] at hle
  refine ⟨clampStart_le hle, fun hsmall ↦ clampStart_le_end grid monotone span ?_⟩
  rcases le_or_gt m 0 with hm | hm
  · -- the sum is not above the length
    have hend := monotone.monotone (m + n : Int) n (by exact_mod_cast (by omega : m + n ≤ n))
    have hlength := monotone.monotone q (max 0 p + q) (by linarith [le_max_left 0 p])
    rw [hzround, hyround] at hend
    rw [grid.fixed q (span.lastsOnGrid q span.lasts),
      Quantity.Same.le_eq (Quantity.Same.of_value? rfl span.lasts) (.refl _)] at hlength
    exact Quantity.le_trans hend hlength
  · -- the numbers are on the grid, as their sum is small
    have hsum : m + n < 2 ^ 53 := by
      by_contra hlarge
      have hgrid : Montage.IsOnGrid (2 ^ 53) := by decide +kernel
      have hlimit := monotone.monotone (2 ^ 53) (m + n : Int)
        (by exact_mod_cast not_lt.mp hlarge)
      rw [grid.fixed _ hgrid, hzround] at hlimit
      have hback := Quantity.lt_of_le_of_lt (clampStart_le hlimit) hsmall
      rw [clampStart_of_value? rfl] at hback
      exact absurd hback (by decide +kernel)
    rw [← hzround, Int.cast_add,
      ← value_of_round grid hm.le (by omega) hxround span.begins,
      ← value_of_round grid hn (by omega) hyround span.lasts]
    exact monotone.monotone _ _ (by linarith [le_max_right 0 p])

end Layer

/-! ## Times as they are given -/

namespace Json

omit rounding in
/-- Whether a value, if it is a number, is one of the grid. -/
def IsOnGrid (value : Json) : Prop := ∀ n, value.number? = some n → n.IsOnGrid

theorem IsOnGrid.quantity (grid : rounding.IsGrid) {value : Json} {x : Quantity}
    (h : value.IsOnGrid) (hread : Decoder.quantity value = .ok x) : x.IsOnGrid := by
  cases value with
  | num n =>
    cases n with
    | real y => cases hread; exact h _ rfl
    | whole k =>
      rw [Decoder.quantity] at hread
      split at hread
      · rename_i hk
        cases hread
        exact Number.IsOnGrid.toQuantity grid (n := .whole k) trivial hk
      · cases hread
  | bool b =>
    cases hread
    cases b <;> rintro _ ⟨⟩ <;> [exact isOnGrid_zero; exact isOnGrid_one]
  | str s =>
    rw [Decoder.quantity] at hread
    split at hread
    · rename_i hs
      cases hread
      exact readQuantityField_isOnGrid hs
    · cases hread
  | _ => cases hread

/-- A number is read as the quantity that it is. -/
theorem toQuantity_of_read (grid : rounding.IsGrid) {value : Json} {n : Number} {x : Quantity}
    (hn : value.number? = some n) (hread : Decoder.quantity value = .ok x) :
    n.toQuantity = .ok x := by
  cases value with
  | num m =>
    cases hn
    cases n with
    | real y => cases hread; rfl
    | whole k =>
      rw [Decoder.quantity] at hread
      split at hread
      · rename_i hk
        cases hread
        exact hk
      · cases hread
  | bool b =>
    cases hn
    cases hread
    cases b
    · exact grid.toQuantity_whole isOnGrid_zero
    · exact grid.toQuantity_whole isOnGrid_one
  | _ => cases hn

/-- A number is added to numbers alone. -/
theorem add_num_eq_ok {value sum : Json} {n : Number} (h : value.add (.num n) = .ok sum) :
    ∃ m r, value.number? = some m ∧ m.add n = .ok r ∧ sum = .num r := by
  have hadd : value.add (.num n) = value.number >>= fun m ↦ m.add n >>= fun r ↦ pure (.num r) := by
    cases value <;> rfl
  rw [hadd] at h
  obtain ⟨m, hm, h⟩ := bind_eq_ok.mp h
  obtain ⟨r, hr, h⟩ := bind_eq_ok.mp h
  exact ⟨m, r, number_eq_ok.mp hm, hr, (pure_eq_ok.mp h).symm⟩

end Json

/-- The start and the length of a layer are a span on the grid. -/
theorem Layer.exists_span (grid : rounding.IsGrid) {start duration : Json} {layer : Layer}
    (hstart : start.IsOnGrid) (hduration : duration.IsOnGrid) (hnull : duration ≠ .null)
    (hread : decodeStart start = .ok layer.startTime)
    (hlength : Decoder.optional decodeLength duration = .ok layer.duration) :
    ∃ x y p q, Decoder.quantity start = .ok x ∧ Decoder.quantity duration = .ok y ∧
      Quantity.IsSpan x y p q ∧ layer.startTime = clampStart x ∧
      layer.endTime = some ((clampStart x).add y) := by
  obtain ⟨x, hx, hfinite, hread⟩ := decodeStart_eq_ok hread
  obtain ⟨y, hy, hlasting, hlength⟩ := decodeLength_eq_ok hnull hlength
  obtain ⟨p, hp⟩ := Quantity.isFinite_iff.mp hfinite
  obtain ⟨q, hpositive, hq⟩ : ∃ q, 0 ≤ q ∧ y.value? = some q := by
    have hnonnegative := Timeline.isNonnegative_of_isLength hlasting
    exact (Quantity.value?_or_endless hnonnegative).resolve_right (by rintro rfl; cases hlasting)
  have span : Quantity.IsSpan x y p q :=
    ⟨hp, hstart.quantity grid hx, hq, hduration.quantity grid hy, hpositive⟩
  exact ⟨x, y, p, q, hx, hy, span, hread, by rw [endTime, hlength, hread, Option.map_some]⟩

/-! ## Captions in a row -/

namespace Timeline

omit rounding in
/-- A time from which the next caption is found: a number of the grid, or a text unless captions do
not overlap at all. -/
structure IsTime (overlap : Number) (value : Json) : Prop where
  onGrid : value.IsOnGrid
  number : overlap = .whole 0 → ∀ text, value ≠ .str text

omit rounding in
theorem IsTime.of_number {overlap n : Number} (h : n.IsOnGrid) : IsTime overlap (.num n) where
  onGrid := by rintro _ ⟨⟩; exact h
  number := by rintro _ _ ⟨⟩

theorem isOnGrid_seconds (grid : rounding.IsGrid) {pace : ReadingPace} {text : Json}
    {seconds : Number} (hpadding : pace.padding.IsOnGrid) (h : pace.seconds text = .ok seconds) :
    seconds.IsOnGrid := by
  obtain ⟨speed, -, h⟩ := bind_eq_ok.mp h
  split at h
  · obtain ⟨_, h, -⟩ := bind_eq_ok.mp h
    exact absurd h throw_ne_ok
  obtain ⟨words, -, h⟩ := bind_eq_ok.mp h
  obtain ⟨minutes, -, h⟩ := bind_eq_ok.mp h
  obtain ⟨product, hproduct, h⟩ := bind_eq_ok.mp h
  obtain ⟨padding, hvalue, h⟩ := bind_eq_ok.mp h
  exact Number.IsOnGrid.combine grid (fun x y ↦ Quantity.IsOnGrid.add grid)
    (Number.isOnGrid_of_mul grid hproduct) (hpadding _ (Json.number_eq_ok.mp hvalue)) h

/-- A reading time is a number of the grid, unless it is one of its bounds. -/
theorem isTime_readingTime (grid : rounding.IsGrid) {overlap : Number} {pace : ReadingPace}
    {text time : Json} (hpadding : pace.padding.IsOnGrid) (hlongest : IsTime overlap pace.longest)
    (hshortest : IsTime overlap pace.shortest) (h : pace.time text = .ok time) :
    IsTime overlap time := by
  obtain ⟨seconds, hseconds, h⟩ := bind_eq_ok.mp h
  obtain ⟨capped, hcapped, h⟩ := bind_eq_ok.mp h
  obtain ⟨longest, -, hcapped⟩ := bind_eq_ok.mp hcapped
  obtain ⟨shortest, -, h⟩ := bind_eq_ok.mp h
  obtain ⟨n, -, h⟩ := bind_eq_ok.mp h
  have htime : IsTime overlap capped := by
    rw [← pure_eq_ok.mp hcapped]
    split
    · exact .of_number (isOnGrid_seconds grid hpadding hseconds)
    · exact hlongest
  rw [← pure_eq_ok.mp h]
  split
  · exact htime
  · exact hshortest

theorem CaptionItem.isTime_length (grid : rounding.IsGrid) {overlap : Number} {item : CaptionItem}
    {batch : CaptionBatch} {start duration : Json} (hstart : IsTime overlap start)
    (hduration : IsTime overlap item.duration) (hstop : IsTime overlap item.stop)
    (h : item.length batch start = .ok duration) : IsTime overlap duration := by
  have hquantity {q : Rat} (hq : Montage.IsOnGrid q) : IsTime overlap (.quantity (.finite q)) :=
    .of_number (by rintro _ ⟨⟩; exact hq)
  rw [CaptionItem.length] at h
  split at h
  · exact isTime_readingTime grid (hquantity (q := 1 / 2) (by decide +kernel)).onGrid
      (hquantity (q := 10) (by decide +kernel)) (hquantity isOnGrid_one) h
  · obtain ⟨m, hm, h⟩ := bind_eq_ok.mp h
    obtain ⟨n, hn, h⟩ := bind_eq_ok.mp h
    obtain ⟨difference, hdifference, h⟩ := bind_eq_ok.mp h
    cases pure_eq_ok.mp h
    exact .of_number (Number.IsOnGrid.combine grid
      (fun x y hx hy ↦ Quantity.IsOnGrid.add grid hx hy.neg)
      (hstop.onGrid m (Json.number_eq_ok.mp hm)) (hstart.onGrid n (Json.number_eq_ok.mp hn))
      hdifference)
  · rw [← pure_eq_ok.mp h]
    exact hduration

/-! ### The cursor -/

/-- Where the cursor stands after a caption: behind a share of its length, or, where times are
texts, behind the text of the start as often as the share says. -/
theorem cursorAfter_eq_ok {batch : CaptionBatch} {start duration next : Json}
    {length : Option Quantity}
    (hlength : Decoder.optional Layer.decodeLength duration = .ok length)
    (h : cursorAfter batch start duration = .ok next) :
    ∃ overlap kept, batch.overlap.number? = some overlap ∧
      (Number.whole 1).sub overlap = .ok kept ∧
      ((∃ m n part sum, start.number? = some m ∧ duration.number? = some n ∧
        n.mul kept = .ok part ∧ m.add part = .ok sum ∧ next = .num sum) ∨
      ∃ s t times, start = .str s ∧ duration = .str t ∧ kept = .whole times ∧
        next = .str (s ++ String.join (List.replicate times.toNat t))) := by
  obtain ⟨overlap, hoverlap, h⟩ := bind_eq_ok.mp h
  obtain ⟨kept, hkept, h⟩ := bind_eq_ok.mp h
  obtain ⟨part, hpart, hsum⟩ := bind_eq_ok.mp h
  refine ⟨overlap, kept, Json.number_eq_ok.mp hoverlap, hkept, ?_⟩
  cases duration with
  | arr items => cases hlength
  | str t =>
    obtain ⟨times, htimes, hpart⟩ := bind_eq_ok.mp hpart
    obtain ⟨n, hn, hpart⟩ := bind_eq_ok.mp hpart
    cases pure_eq_ok.mp hpart
    have hwhole : kept = .whole times := by
      cases kept <;> cases htimes
      rfl
    rw [Json.repetitions] at hn
    split at hn <;> cases hn
    cases start with
    | str s => exact .inr ⟨s, t, times, rfl, rfl, hwhole, (Except.ok.inj hsum).symm⟩
    | _ =>
      -- a text is added to texts alone
      obtain ⟨m, -, hsum⟩ := bind_eq_ok.mp hsum
      obtain ⟨n, hn, -⟩ := bind_eq_ok.mp hsum
      cases hn
  | _ =>
    obtain ⟨n, hn, hpart⟩ := bind_eq_ok.mp hpart
    obtain ⟨product, hproduct, hpart⟩ := bind_eq_ok.mp hpart
    cases pure_eq_ok.mp hpart
    obtain ⟨m, sum, hm, hadd, hnext⟩ := Json.add_num_eq_ok hsum
    exact .inl ⟨m, n, product, sum, hm, Json.number_eq_ok.mp hn, hproduct, hadd, hnext⟩

theorem isTime_cursorAfter (grid : rounding.IsGrid) {batch : CaptionBatch} {overlap : Number}
    {start duration next : Json} {length : Option Quantity} (hstart : IsTime overlap start)
    (hlength : Decoder.optional Layer.decodeLength duration = .ok length)
    (h : cursorAfter batch start duration = .ok next) : IsTime overlap next := by
  obtain ⟨_, kept, -, -, hnumbers | htexts⟩ := cursorAfter_eq_ok hlength h
  · obtain ⟨m, n, part, sum, hm, -, hpart, hsum, rfl⟩ := hnumbers
    exact .of_number (Number.IsOnGrid.combine grid (fun x y ↦ Quantity.IsOnGrid.add grid)
      (hstart.onGrid m hm) (Number.isOnGrid_of_mul grid hpart) hsum)
  · obtain ⟨s, t, times, rfl, -, -, rfl⟩ := htexts
    exact ⟨by rintro _ ⟨⟩, fun hzero ↦ absurd rfl (hstart.number hzero s)⟩

/-- A layer starts no earlier than the one before it, and no later than that ends, as long as it
starts at a small number if captions do not overlap. -/
structure LeadsTo (overlap : Number) (before after : Layer) : Prop where
  notBefore : before.startTime.le after.startTime = true
  noHole : (overlap = .whole 0 → after.startTime.lt (.finite (2 ^ 53)) = true) →
    before.LastsUntil after

section

variable (grid : rounding.IsGrid) (monotone : rounding.IsMonotone) {batch : CaptionBatch}
  {overlap : Number} (hoverlap : batch.overlap.number? = some overlap) (onGrid : overlap.IsOnGrid)
  (hshare : overlap.IsShare)
include grid monotone hoverlap onGrid hshare

/-- **A caption that starts where the cursor stands follows the one before it.** -/
theorem cursorAfter_leadsTo {start duration next : Json} {before after : Layer}
    (hstart : IsTime overlap start) (hduration : IsTime overlap duration)
    (hbefore : Layer.decodeStart start = .ok before.startTime)
    (hlength : Decoder.optional Layer.decodeLength duration = .ok before.duration)
    (hnext : cursorAfter batch start duration = .ok next)
    (hafter : Layer.decodeStart next = .ok after.startTime) : LeadsTo overlap before after := by
  obtain ⟨_, kept, hoverlap', hkept, hcases⟩ := cursorAfter_eq_ok hlength hnext
  cases hoverlap.symm.trans hoverlap'
  obtain ⟨hkept, hwhole⟩ := Number.isShare_of_sub grid monotone onGrid hshare hkept
  have hnull : duration ≠ .null := by
    rintro rfl
    rcases hcases with ⟨_, _, _, _, -, hn, -⟩ | ⟨_, _, _, -, ht, -⟩
    · cases hn
    · cases ht
  obtain ⟨x, y, p, q, hx, hy, span, hbegins, hends⟩ :=
    Layer.exists_span grid hstart.onGrid hduration.onGrid hnull hbefore hlength
  obtain ⟨z, hz, -, hfollows⟩ := Layer.decodeStart_eq_ok hafter
  have within {r : Rat} (hr : 0 ≤ r) (hrq : r ≤ q)
      (hsame : Quantity.Same z (rounding.round (p + r))) : LeadsTo overlap before after := by
    have h := Layer.clampStart_within grid monotone span hr hrq hsame
    rw [← hbegins, ← hfollows] at h
    exact ⟨h.1, fun _ ↦ ⟨_, hends, hbegins ▸ h.2⟩⟩
  rcases hcases with ⟨m, n, part, sum, hm, hn, hpart, hsum, rfl⟩ | ⟨s, t, times, rfl, rfl, rfl, rfl⟩
  · have hm := Json.toQuantity_of_read grid hm hx
    have hn := Json.toQuantity_of_read grid hn hy
    have hz := Json.toQuantity_of_read grid (show (Json.num sum).number? = some sum from rfl) hz
    rcases Number.moved_by_share grid monotone hkept span hm hn hpart hsum hz with
      ⟨r, hr, hrq, hsame⟩ | ⟨rfl, m, n, rfl, rfl, rfl⟩
    · exact within hr hrq hsame
    · have h := Layer.clampStart_whole grid monotone span hm hn hz
      rw [← hbegins, ← hfollows] at h
      exact ⟨h.1, fun hsmall ↦ ⟨_, hends, hbegins ▸ h.2 (hsmall (hwhole 1 rfl))⟩⟩
  · rcases hkept.zero_or_one with rfl | rfl
    · -- a text that is repeated no times leaves the cursor where the caption starts
      have hsame : s ++ String.join (List.replicate (0 : Int).toNat t) = s := String.append_empty
      rw [hsame] at hz
      cases hx.symm.trans hz
      refine within le_rfl span.nonnegative ?_
      rw [add_zero, grid.fixed p (span.beginsOnGrid p span.begins)]
      exact .of_value? span.begins rfl
    · exact absurd rfl (hstart.number (hwhole 1 rfl) s)

end

/-! ### Rows of captions -/

/-- The times of a caption: when it starts, how long it stays and when it ends. -/
structure CaptionTimes where
  start : Json
  duration : Json
  stop : Json

/-- The times as a list. -/
def CaptionTimes.all (times : CaptionTimes) : List Json := [times.start, times.duration, times.stop]

omit rounding in
theorem CaptionTimes.forall_mem_all {times : CaptionTimes} {P : Json → Prop} :
    (∀ time ∈ times.all, P time) ↔ P times.start ∧ P times.duration ∧ P times.stop := by
  rw [CaptionTimes.all, List.forall_mem_cons, List.forall_mem_cons, List.forall_mem_singleton]

omit rounding in
/-- The times that are given with a caption.  A text alone comes without times. -/
def captionTimes : Json → CaptionTimes
  | .obj members => {
      start := eitherMember members "start_time" "startTime"
      duration := (Json.lookup? "duration" members).getD .null
      stop := eitherMember members "end_time" "endTime" }
  | _ => { start := .null, duration := .null, stop := .null }

omit rounding in
/-- Whether a caption leaves its start to the cursor. -/
def IsUntimed (value : Json) : Prop := (captionTimes value).start = .null

omit rounding in
/-- The layer shows the text that is given for a caption. -/
def IsCaptionOf (value : Json) (layer : Layer) : Prop :=
  ∃ caption, layer.content = .caption caption ∧
    (value = .str caption.text ∨
      ∃ members, value = .obj members ∧ Json.lookup? "text" members = some (.str caption.text))

/-- The layers of captions in a row: every caption but the first that leaves its start to the cursor
stands to the one before it as a rule says. -/
def IsRow (rule : Layer → Layer → Prop) (values : List Json) (layers : List Layer) : Prop :=
  (values.zip layers).IsChain fun before after ↦ IsUntimed after.1 → rule before.2 after.2

theorem captionItem_eq_ok {position transition transitionDuration value : Json} {item : CaptionItem}
    (h : captionItem position transition transitionDuration value = .ok item) :
    captionTimes value = ⟨item.start, item.duration, item.stop⟩ ∧
      ∀ text, item.text = .str text → value = .str text ∨
        ∃ members, value = .obj members ∧ Json.lookup? "text" members = some (.str text) := by
  cases value with
  | str s =>
    cases h
    exact ⟨rfl, fun text htext ↦ .inl htext⟩
  | obj members =>
    cases h
    refine ⟨rfl, fun text htext ↦ .inr ⟨members, rfl, ?_⟩⟩
    cases hlookup : Json.lookup? "text" members with
    | none => rw [hlookup] at htext; cases htext
    | some value => rw [hlookup] at htext; exact congrArg some htext
  | _ => cases h

section

variable {position transition transitionDuration : Json} {batch : CaptionBatch} {values : List Json}
  {place : Nat} {cursor : Json} {layers : List Layer}

theorem captionLayers_areCaptions (h : captionLayers batch place cursor
      (values.map (captionItem position transition transitionDuration)) = .ok layers) :
    List.Forall₂ IsCaptionOf values layers := by
  induction values generalizing place cursor layers with
  | nil =>
    cases h
    exact .nil
  | cons value rest ih =>
    obtain ⟨item, layer, next, others, hitem, rfl, becomes, hothers⟩ := captionLayers_cons_eq_ok h
    obtain ⟨caption, hcontent, htext⟩ := becomes.text
    exact .cons ⟨caption, hcontent, (captionItem_eq_ok hitem).2 _ htext⟩ (ih hothers)

/-- **Captions in a row follow one another**, from any place of the cursor on. -/
theorem captionLayers_isRow (grid : rounding.IsGrid) (monotone : rounding.IsMonotone)
    {overlap : Number} (hoverlap : batch.overlap.number? = some overlap) (onGrid : overlap.IsOnGrid)
    (hshare : overlap.IsShare) (hcursor : IsTime overlap cursor)
    (htimes : ∀ value ∈ values, ∀ time ∈ (captionTimes value).all, IsTime overlap time)
    (h : captionLayers batch place cursor
      (values.map (captionItem position transition transitionDuration)) = .ok layers) :
    IsRow (LeadsTo overlap) values layers := by
  induction values generalizing place cursor layers with
  | nil => exact .nil
  | cons value rest ih =>
    rw [List.forall_mem_cons] at htimes
    obtain ⟨item, layer, next, others, hitem, rfl, becomes, hothers⟩ := captionLayers_cons_eq_ok h
    obtain ⟨duration, hduration, hlength, hnext⟩ := becomes.length
    have hown := htimes.1
    rw [(captionItem_eq_ok hitem).1, CaptionTimes.forall_mem_all] at hown
    have hstart : IsTime overlap (item.startFrom cursor) := by
      rw [CaptionItem.startFrom]
      split
      · exact hcursor
      · exact hown.1
    refine List.isChain_cons.mpr ⟨fun after hafter untimed ↦ ?_,
      ih (isTime_cursorAfter grid hstart hlength hnext) htimes.2 hothers⟩
    cases rest with
    | nil => cases hafter
    | cons second rest =>
      -- the next caption starts where this one has left the cursor
      obtain ⟨item', layer', _, others', hitem', rfl, becomes', -⟩ :=
        captionLayers_cons_eq_ok hothers
      cases hafter
      have hnull : item'.start = .null := by
        rwa [IsUntimed, (captionItem_eq_ok hitem').1] at untimed
      have hfrom : item'.startFrom next = next := by rw [CaptionItem.startFrom, hnull]
      exact cursorAfter_leadsTo grid monotone hoverlap onGrid hshare hstart
        (item.isTime_length grid hstart hown.2.1 hown.2.2 hduration) becomes.start hlength hnext
        (hfrom ▸ becomes'.start)

end

/-! ### Calls -/

omit rounding in
/-- A call for captions that overlap by a number, in which all numbers are on the grid. -/
structure IsCaptionsCall (overlap : Number) (given : List (String × Json)) (request : Request)
    (values : List Json) : Prop where
  complete : Request.complete captionsSignature given = .ok request
  captions : (request.get "captions").elements = .ok values
  share : (request.get "overlap").number? = some overlap
  delay : (request.get "start_delay").IsOnGrid
  times : ∀ value ∈ values, ∀ time ∈ (captionTimes value).all, time.IsOnGrid

omit rounding in
/-- No time is given as a text. -/
structure SaysNumbers (request : Request) (values : List Json) : Prop where
  delay : ∀ text, request.get "start_delay" ≠ .str text
  times : ∀ value ∈ values, ∀ time ∈ (captionTimes value).all, ∀ text, time ≠ .str text

/-- Layers are added behind those that were there: one for each caption, in the order of the
captions and with their texts. -/
structure AddsCaptions (values : List Json) (timeline next : Timeline) (layers : List Layer) :
    Prop where
  next_eq : next = timeline.append layers
  captions : List.Forall₂ IsCaptionOf values layers

theorem addCaptions_isRow (grid : rounding.IsGrid) (monotone : rounding.IsMonotone)
    {overlap : Number} (onGrid : overlap.IsOnGrid) (hshare : overlap.IsShare)
    {timeline next : Timeline} {given : List (String × Json)} {request : Request}
    {values : List Json} (call : IsCaptionsCall overlap given request values)
    (h : timeline.addCaptions given = .ok next) :
    ∃ layers, AddsCaptions values timeline next layers ∧
      ((overlap = .whole 0 → SaysNumbers request values) →
        IsRow (LeadsTo overlap) values layers) := by
  obtain ⟨_, hrequest, h⟩ := bind_eq_ok.mp h
  cases call.complete.symm.trans hrequest
  obtain ⟨style, -, h⟩ := bind_eq_ok.mp h
  obtain ⟨_, hvalues, h⟩ := bind_eq_ok.mp h
  cases call.captions.symm.trans hvalues
  obtain ⟨layers, hlayers, h⟩ := bind_eq_ok.mp h
  refine ⟨layers, ⟨(pure_eq_ok.mp h).symm, captionLayers_areCaptions hlayers⟩, fun numbers ↦ ?_⟩
  exact captionLayers_isRow grid monotone call.share onGrid hshare
    ⟨call.delay, fun hzero ↦ (numbers hzero).delay⟩
    (fun value hvalue time htime ↦ ⟨call.times value hvalue time htime,
      fun hzero ↦ (numbers hzero).times value hvalue time htime⟩) hlayers

end Timeline
end

namespace Timeline

attribute [local instance] Rounding.binary64

/-- What a call gives for captions that overlap by a number. -/
def captionsCall (values : List Json) (overlap : Number) : List (String × Json) :=
  [("captions", .arr values), ("overlap", .num overlap)]

theorem isCaptionsCall_captionsCall {values : List Json} (overlap : Number)
    (htimes : ∀ value ∈ values, ∀ time ∈ (captionTimes value).all, time.IsOnGrid) :
    ∃ request, request.get "start_delay" = zeroDelay ∧
      IsCaptionsCall overlap (captionsCall values overlap) request values := by
  obtain ⟨request, hrequest⟩ : ∃ request,
      Request.complete captionsSignature (captionsCall values overlap) = .ok request := ⟨_, rfl⟩
  have hget {name : String} {parameter : Parameter}
      (hfind : captionsSignature.find? (fun other ↦ other.name == name) = some parameter) :=
    Request.get_of_complete hrequest hfind
  have hcaptions : request.get "captions" = .arr values := (hget rfl).trans rfl
  have hoverlap : request.get "overlap" = .num overlap := (hget rfl).trans rfl
  have hdelay : request.get "start_delay" = zeroDelay := (hget rfl).trans rfl
  refine ⟨request, hdelay, hrequest, by rw [hcaptions]; rfl, by rw [hoverlap]; rfl, ?_, htimes⟩
  rw [hdelay]
  rintro _ ⟨⟩ q ⟨⟩
  exact isOnGrid_zero

/-- A caption that starts at a whole number that is not on the grid, and one behind it. -/
def roundedAway : List Json := [
  .obj [("text", .str "a"), ("start_time", .whole 9007199254740993), ("duration", .whole 1)],
  .str "b"]

theorem roundedAway_times : ∀ value ∈ roundedAway, ∀ time ∈ (captionTimes value).all,
    time.IsOnGrid ∧ ∀ text, time ≠ .str text := by
  have hwhole (n : Int) : (Json.whole n).IsOnGrid ∧ ∀ text, Json.whole n ≠ .str text :=
    ⟨by rintro _ ⟨⟩; trivial, by rintro _ ⟨⟩⟩
  have hnull : Json.null.IsOnGrid ∧ ∀ text, Json.null ≠ .str text :=
    ⟨by rintro _ ⟨⟩, by rintro _ ⟨⟩⟩
  rw [roundedAway, List.forall_mem_cons, List.forall_mem_singleton, CaptionTimes.forall_mem_all,
    CaptionTimes.forall_mem_all]
  exact ⟨⟨hwhole _, hwhole _, hnull⟩, hnull, hnull, hnull⟩

/-- The first layer ends where it starts, as a second is less than the distance to the next point of
the grid; the second layer starts there, as both numbers together are rounded up. -/
theorem roundedAway_layers : ∃ next first second,
    addCaptions {} (captionsCall roundedAway 0) = .ok next ∧ next.layers = [first, second] ∧
    ¬ first.LastsUntil second := by
  have htimes : (addCaptions {} (captionsCall roundedAway 0)).toOption.map
      (fun next ↦ next.layers.map fun layer ↦ (layer.startTime, layer.endTime)) =
      some [(.finite (2 ^ 53), some (.finite (2 ^ 53))),
        (.finite (2 ^ 53 + 2), some (.finite (2 ^ 53 + 4)))] := by decide +kernel
  obtain ⟨next, hnext, htimes⟩ := Option.map_eq_some_iff.mp htimes
  obtain ⟨first, rest, hlayers, hfirst, hrest⟩ := List.map_eq_cons_iff.mp htimes
  obtain ⟨second, _, rfl, hsecond, hrest⟩ := List.map_eq_cons_iff.mp hrest
  cases List.map_eq_nil_iff.mp hrest
  refine ⟨next, first, second, toOption_eq_some.mp hnext, hlayers, ?_⟩
  rintro ⟨stop, hstop, hle⟩
  cases (congrArg Prod.snd hfirst).symm.trans hstop
  have hstart : second.startTime = .finite (2 ^ 53 + 2) := congrArg Prod.fst hsecond
  rw [hstart] at hle
  exact absurd hle (by decide +kernel)

/-- A layer starts no earlier than the one before it, and no later than that ends. -/
structure Follows (before after : Layer) : Prop where
  notBefore : before.startTime.le after.startTime = true
  noHole : before.LastsUntil after

/-- **Captions without a start of their own follow one another, whatever else is said, just if the
overlap is not the whole number zero.**  Every list of captions that is accepted becomes one layer
for each caption, in order.  A caption that leaves its start to the cursor starts no earlier than
the one before it, and no later than that ends; where the overlap is the whole number zero, as long
as no time is a text, and it starts before `2 ^ 53`. -/
theorem addCaptions_leadTo {overlap : Number} (onGrid : overlap.IsOnGrid)
    (hshare : overlap.IsShare) :
    (∀ (timeline next : Timeline) (given : List (String × Json)) (request : Request)
      (values : List Json), IsCaptionsCall overlap given request values →
      timeline.addCaptions given = .ok next →
      ∃ layers, AddsCaptions values timeline next layers ∧
        ((overlap = .whole 0 → SaysNumbers request values) →
          IsRow (LeadsTo overlap) values layers)) ∧
    ((∀ (timeline next : Timeline) (given : List (String × Json)) (request : Request)
      (values : List Json), IsCaptionsCall overlap given request values →
      timeline.addCaptions given = .ok next →
      ∃ layers, AddsCaptions values timeline next layers ∧ IsRow Follows values layers) ↔
      overlap ≠ .whole 0) := by
  have leads {timeline next : Timeline} {given : List (String × Json)} {request : Request}
      {values : List Json} (call : IsCaptionsCall overlap given request values)
      (h : timeline.addCaptions given = .ok next) :=
    addCaptions_isRow binary64_isGrid binary64_isMonotone onGrid hshare call h
  refine ⟨fun _ _ _ _ _ call h ↦ leads call h, fun follows hzero ↦ ?_,
    fun hne _ _ _ _ _ call h ↦ ?_⟩
  · subst hzero
    obtain ⟨request, -, call⟩ := isCaptionsCall_captionsCall 0 fun value hvalue time htime ↦
      (roundedAway_times value hvalue time htime).1
    obtain ⟨next, first, second, hnext, hlayers, hhole⟩ := roundedAway_layers
    obtain ⟨layers, ⟨rfl, -⟩, hrow⟩ := follows {} next _ request roundedAway call hnext
    obtain rfl : layers = [first, second] := hlayers
    exact hhole ((List.isChain_cons_cons.mp hrow).1 rfl).noHole
  · obtain ⟨layers, hcaptions, hrow⟩ := leads call h
    refine ⟨layers, hcaptions, (hrow fun hzero ↦ absurd hzero hne).imp
      fun before after leads untimed ↦ ?_⟩
    exact ⟨(leads untimed).notBefore, (leads untimed).noHole fun hzero ↦ absurd hzero hne⟩

/-- A caption that starts before zero, and one behind it. -/
def earlyStart : List Json := [
  .obj [("text", .str "a"), ("start_time", .quantity (.finite (-3))),
    ("duration", .quantity (.finite 8))],
  .str "b"]

/-- Captions that overlap by a half follow one another, also behind one that starts before zero.  If
they do not overlap, and the first one starts at a large whole number, then there is a hole. -/
theorem earlyStart_follows :
    (∃ next layers, addCaptions {} (captionsCall earlyStart (.real (.finite (1 / 2)))) = .ok next ∧
      AddsCaptions earlyStart {} next layers ∧ IsRow Follows earlyStart layers) ∧
    ∃ next first second, addCaptions {} (captionsCall roundedAway 0) = .ok next ∧
      next.layers = [first, second] ∧ LeadsTo 0 first second ∧ ¬ first.LastsUntil second := by
  constructor
  · have hquantity {q : Rat} (hq : Montage.IsOnGrid q) : (Json.quantity (.finite q)).IsOnGrid := by
      rintro _ ⟨⟩ _ ⟨⟩
      exact hq
    have hnull : Json.null.IsOnGrid := by rintro _ ⟨⟩
    have hhalf : Montage.IsOnGrid (1 / 2) := by decide +kernel
    have htimes : ∀ value ∈ earlyStart, ∀ time ∈ (captionTimes value).all, time.IsOnGrid := by
      rw [earlyStart, List.forall_mem_cons, List.forall_mem_singleton, CaptionTimes.forall_mem_all,
        CaptionTimes.forall_mem_all]
      exact ⟨⟨hquantity (q := -3) (by decide +kernel), hquantity (q := 8) (by decide +kernel),
        hnull⟩, hnull, hnull, hnull⟩
    have hok : (addCaptions {}
        (captionsCall earlyStart (.real (.finite (1 / 2))))).toOption.isSome = true := by
      decide +kernel
    obtain ⟨next, hnext⟩ := Option.isSome_iff_exists.mp hok
    obtain ⟨request, -, call⟩ := isCaptionsCall_captionsCall (.real (.finite (1 / 2))) htimes
    have onGrid : (Number.real (.finite (1 / 2))).IsOnGrid := by rintro _ ⟨⟩; exact hhalf
    obtain ⟨layers, hcaptions, hrow⟩ := (addCaptions_leadTo onGrid
      ⟨1 / 2, rfl, by norm_num, by norm_num⟩).2.mpr (by rintro ⟨⟩)
      {} next _ request earlyStart call (toOption_eq_some.mp hnext)
    exact ⟨next, layers, toOption_eq_some.mp hnext, hcaptions, hrow⟩
  · obtain ⟨request, hdelay, call⟩ := isCaptionsCall_captionsCall 0 fun value hvalue time htime ↦
      (roundedAway_times value hvalue time htime).1
    have numbers : SaysNumbers request roundedAway :=
      ⟨by rw [hdelay]; rintro _ ⟨⟩,
        fun value hvalue time htime ↦ (roundedAway_times value hvalue time htime).2⟩
    obtain ⟨next, first, second, hnext, hlayers, hhole⟩ := roundedAway_layers
    have onGrid : (0 : Number).IsOnGrid := trivial
    obtain ⟨layers, ⟨rfl, -⟩, hrow⟩ := (addCaptions_leadTo onGrid
      ⟨0, rfl, le_rfl, zero_le_one⟩).1 {} next _ request roundedAway call hnext
    obtain rfl : layers = [first, second] := hlayers
    exact ⟨_, first, second, hnext, rfl,
      (List.isChain_cons_cons.mp (hrow fun _ ↦ numbers)).1 rfl, hhole⟩

end Timeline
end Montage
