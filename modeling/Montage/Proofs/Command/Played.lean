import Montage.Proofs.Command.Tempo
import Montage.Proofs.Outcome

/-!
# How long a sound plays

The filters of an audio layer are read as what they do to the length of a sound: a cut keeps at most
what lies between two times, or at most a duration, a tempo divides the length, and no other filter
changes it (`Filter.lengthBehind`).

The sound is cut to the duration of its layer first, and the steps of the tempo come after that.  So
a layer plays for its duration divided by its tempo, and for its duration only if its tempo is one
when it is rounded to six places (`plays_for_duration_iff`).  The fade at its end is placed by the
duration all the same, and misses the end of what is played for every other tempo.
-/

set_option autoImplicit false

namespace Montage

/-! ## Lengths -/

/-- The finite number that is the value of an option. -/
def OptionValue.amount? : OptionValue → Option Rat
  | .num n => n.exactly.value?
  | _ => none

namespace Filter

/-- The finite number that an option of a filter is set to. -/
def amountOf? (filter : Filter) (key : String) : Option Rat :=
  (filter.get? key).bind OptionValue.amount?

/-- How long a sound is behind a filter, if it was so long before. -/
def lengthBehind (filter : Filter) (length : Rat) : Rat :=
  if filter.name = "atrim" then
    let stop := ((filter.amountOf? "end").map (min length)).getD length
    let part := max 0 (stop - (filter.amountOf? "start").getD 0)
    ((filter.amountOf? "duration").map (min part)).getD part
  else if filter.name = "atempo" then
    ((filter.options.head?.bind (·.2.amount?)).map (length / ·)).getD length
  else length

/-- The filter neither cuts nor hastens. -/
def KeepsLength (filter : Filter) : Prop := filter.name ≠ "atrim" ∧ filter.name ≠ "atempo"

theorem KeepsLength.lengthBehind_eq {filter : Filter} (h : filter.KeepsLength) (length : Rat) :
    filter.lengthBehind length = length := by
  rw [lengthBehind, if_neg h.1, if_neg h.2]

/-- A step of a tempo divides. -/
theorem lengthBehind_tempo (step length : Rat) :
    (withArgs "atempo" [.quantity (.finite step)]).lengthBehind length = length / step := rfl

/-- A cut to a duration that the sound has keeps that much. -/
theorem lengthBehind_limit {D length : Rat} (hD : 0 < D) (h : D ≤ length) :
    (named "atrim" [("duration", .quantity (.finite D))]).lengthBehind length = D := by
  show min (max 0 (length - 0)) D = D
  rw [sub_zero, max_eq_right (hD.le.trans h), min_eq_right h]

end Filter

namespace Command

/-- How long a sound is behind some filters, one after the other. -/
def lengthBehind (filters : List Filter) (length : Rat) : Rat :=
  filters.foldl (fun length filter ↦ filter.lengthBehind length) length

theorem lengthBehind_append (first second : List Filter) (length : Rat) :
    lengthBehind (first ++ second) length = lengthBehind second (lengthBehind first length) :=
  List.foldl_append

theorem lengthBehind_of_keepsLength {filters : List Filter}
    (h : ∀ filter ∈ filters, filter.KeepsLength) (length : Rat) :
    lengthBehind filters length = length := by
  induction filters with
  | nil => rfl
  | cons filter filters ih =>
    rw [List.forall_mem_cons] at h
    rw [lengthBehind, List.foldl_cons, h.1.lengthBehind_eq]
    exact ih h.2

/-- The steps of a tempo divide by their product. -/
theorem lengthBehind_steps (steps : List Rat) (length : Rat) :
    lengthBehind (steps.map fun step ↦ .withArgs "atempo" [.quantity (.finite step)]) length =
      length / steps.prod := by
  induction steps generalizing length with
  | nil => exact (div_one length).symm
  | cons step steps ih =>
    rw [List.map_cons, lengthBehind, List.foldl_cons, Filter.lengthBehind_tempo, List.prod_cons,
      ← div_div]
    exact ih (length / step)

/-! ## A source that lasts -/

/-- A source of a length goes on for `D` from where it is opened, and is not cut before that. -/
def LastsFor (source : Source) (length D : Rat) : Prop :=
  ∃ start, (source.trimStart.getD (.finite 0)).value? = some start ∧ start + D ≤ length ∧
    ∀ stop ∈ source.trimEnd.bind Quantity.value?, start + D ≤ stop

/-- The filter that cuts a sound to its source. -/
theorem lengthBehind_cut (source : Source) (length : Rat) :
    lengthBehind (cutFilter "atrim" source) length = length ∧ source.trimStart = none ∧
        source.trimEnd = none ∨
      lengthBehind (cutFilter "atrim" source) length =
        max 0 ((((source.trimEnd.bind Quantity.value?).map (min length)).getD length)
          - (source.trimStart.bind Quantity.value?).getD 0) := by
  obtain ⟨path, trimStart, trimEnd⟩ := source
  cases trimStart <;> cases trimEnd
  · exact .inl ⟨rfl, rfl, rfl⟩
  all_goals exact .inr rfl

/-- What a source is cut to lasts for as long as the source does. -/
theorem LastsFor.le_lengthBehind {source : Source} {length D : Rat} (h : LastsFor source length D) :
    D ≤ lengthBehind (cutFilter "atrim" source) length := by
  obtain ⟨start, hstart, hlength, hstop⟩ := h
  have hopened : (source.trimStart.bind Quantity.value?).getD 0 = start := by
    cases htrim : source.trimStart with
    | none =>
      rw [htrim] at hstart
      exact Option.some.inj hstart
    | some x =>
      rw [htrim] at hstart
      exact congrArg (Option.getD · 0) hstart
  obtain ⟨heq, hnone, -⟩ | heq := lengthBehind_cut source length
  · rw [hnone] at hopened
    obtain rfl : 0 = start := hopened
    rw [heq]
    linarith
  · rw [heq, hopened]
    refine le_max_of_le_right ?_
    cases hend : source.trimEnd.bind Quantity.value? with
    | none =>
      show D ≤ length - start
      linarith
    | some stop =>
      have hle := le_min hlength (hstop stop hend)
      show D ≤ min length stop - start
      linarith

/-! ## Steps -/

/-- The steps in which a sound is played at a tempo: none at the tempo one, and else the whole steps
of the tempo, and what they leave of it rounded to six places. -/
def ArePlayedSteps [Rounding] (tempo : Option Quantity) (steps : List Rat) : Prop :=
  ((∀ t ∈ tempo, t.eq (.finite 1) = true) ∧ steps = []) ∨
    ∃ t ∈ tempo, t.eq (.finite 1) = false ∧ ∃ whole last rounded,
      tempoParts t = some (whole.map .finite, .finite last) ∧
        t.value? = some (whole.prod * last) ∧
          (Quantity.finite last).roundPlaces 6 = .finite rounded ∧ steps = whole ++ [rounded]

/-- A tempo that is one when it is rounded to six places, if there is one. -/
def KeepsPace [Rounding] (tempo : Option Quantity) : Prop :=
  ∀ t ∈ tempo, (t.roundPlaces 6).eq (.finite 1) = true

section Steps

variable [rounding : Rounding] (binary : rounding.IsBinary)
include binary

theorem roundPlaces_one : (Quantity.finite 1).roundPlaces 6 = .finite 1 := by
  obtain ⟨x, hx, -, hge, hle⟩ := exists_roundPlaces binary (q := 1) (by norm_num) (by norm_num)
  rw [hx, le_antisymm (hle le_rfl) (hge le_rfl)]

/-- A tempo beyond the range is not one when it is rounded. -/
theorem roundPlaces_ne_one {q : Rat} (hq : 0 < q) (h : 2 < q ∨ q < 1 / 2) :
    ((Quantity.finite q).roundPlaces 6).eq (.finite 1) = false := by
  rw [← Bool.not_eq_true]
  intro hone
  have heq := Quantity.eq_of_pos hone (by decide)
  rw [Quantity.roundPlaces] at heq
  dsimp only [Quantity.value?] at heq
  split at heq
  · cases hsign : (Quantity.finite q).isNegative <;> rw [hsign] at heq <;> cases heq
  have htwo : rounding.round 2 = .finite 2 := by
    simpa using binary.double 1 one_pos le_rfl binary.one
  obtain hgt | hlt := h
  · have hplace := le_nearestPlace (n := 2000000) 6 (by norm_num) hgt.le hq.le
    have hle := binary.le 2 _ two_pos.le hplace
    rw [htwo, heq] at hle
    cases hle
  · have hplace := nearestPlace_le (n := 500000) 6 (by norm_num) hlt.le hq.le
    have hzero := le_nearestPlace (x := 0) (n := 0) 6 (by norm_num) hq.le hq.le
    have hle := binary.le _ (1 / 2) hzero hplace
    rw [binary.half 1 le_rfl binary.one, heq] at hle
    exact absurd ((Quantity.le_iff_value? rfl rfl).mp hle) (by norm_num)

/-- The steps of a tempo above two multiply to more than one, those of one below a half to less. -/
theorem prod_eq_one_iff {q last rounded : Rat} {whole : List Rat} (hq : 0 < q)
    (hproduct : whole.prod * last = q) (hrange : 1 / 2 ≤ last ∧ last ≤ 2)
    (hfast : 2 < q → 1 ≤ last) (hslow : q < 1 / 2 → last ≤ 1) (hsame : 1 / 2 ≤ q → q ≤ 2 → last = q)
    (hrounded : (Quantity.finite last).roundPlaces 6 = .finite rounded) :
    (whole ++ [rounded]).prod = 1 ↔ ((Quantity.finite q).roundPlaces 6).eq (.finite 1) = true := by
  obtain ⟨x, hx, ⟨hxlow, -⟩, hxge, hxle⟩ := exists_roundPlaces binary hrange.1 hrange.2
  obtain rfl : x = rounded := Quantity.finite.inj (hx.symm.trans hrounded)
  have hlast : 0 < last := by linarith [hrange.1]
  rw [List.prod_append, List.prod_singleton]
  by_cases hin : 1 / 2 ≤ q ∧ q ≤ 2
  · -- in the range there is one step
    obtain rfl := hsame hin.1 hin.2
    have hwhole : whole.prod = 1 := by
      rwa [mul_eq_right₀ hlast.ne'] at hproduct
    rw [hwhole, one_mul, hrounded]
    refine ⟨fun h ↦ ?_, fun h ↦ Quantity.finite.inj (Quantity.eq_of_pos h (by decide))⟩
    rw [h]
    decide
  · have hout : 2 < q ∨ q < 1 / 2 := by
      rw [not_and_or, not_le, not_le] at hin
      exact hin.symm
    rw [roundPlaces_ne_one binary hq hout]
    refine iff_of_false ?_ Bool.false_ne_true
    obtain hgt | hlt := hout
    · have hwhole : 1 < whole.prod := by
        by_contra hle
        nlinarith [hrange.2, not_lt.mp hle]
      have := hxge (hfast hgt)
      nlinarith
    · have hwhole : whole.prod < 1 := by
        by_contra hge
        nlinarith [hrange.1, not_lt.mp hge]
      have := hxle (hslow hlt)
      nlinarith

/-- **A tempo is played in steps just if it is finite.**  The steps multiply to one just if the tempo
is one when it is rounded. -/
theorem tempoFilters_iff {tempo : Option Quantity}
    (positive : ∀ t ∈ tempo, Quantity.lt (.finite 0) t = true)
    (fixed : ∀ q, tempo = some (.finite q) → rounding.round q = .finite q) :
    ((∃ filters, tempoFilters tempo = .ok filters) ↔ ∀ t ∈ tempo, t.isFinite = true) ∧
      ∀ filters, tempoFilters tempo = .ok filters → ∃ steps, ArePlayedSteps tempo steps ∧
        (filters = steps.map fun step ↦ .withArgs "atempo" [.quantity (.finite step)]) ∧
          (steps.prod = 1 ↔ KeepsPace tempo) := by
  cases tempo with
  | none =>
    refine ⟨iff_of_true ⟨[], rfl⟩ (by rintro _ ⟨⟩), ?_⟩
    rintro _ ⟨⟩
    exact ⟨[], .inl ⟨by rintro _ ⟨⟩, rfl⟩, rfl, iff_of_true rfl (by rintro _ ⟨⟩)⟩
  | some t =>
    by_cases hone : t.eq (.finite 1) = true
    · obtain rfl := Quantity.eq_of_pos hone (by decide)
      refine ⟨iff_of_true ⟨[], rfl⟩ (by rintro _ ⟨⟩; rfl), ?_⟩
      rintro _ ⟨⟩
      refine ⟨[], .inl ⟨by rintro _ ⟨⟩; rfl, rfl⟩, rfl, iff_of_true rfl ?_⟩
      rintro _ ⟨⟩
      rw [roundPlaces_one binary]
      rfl
    have hfilters : tempoFilters (some t) = (tempoChain t).elim (.error .overflow) fun steps ↦
        .ok (steps.map fun step ↦ .withArgs "atempo" [.quantity step]) := by
      rw [tempoFilters]
      refine (if_neg hone).trans ?_
      cases tempoChain t <;> rfl
    rw [hfilters, tempoChain]
    obtain ⟨q, hq, rfl⟩ | rfl := Quantity.lt_zero_iff.mp (positive t rfl)
    · obtain ⟨whole, last, hparts, hwhole, hrange, hproduct, hfast, hslow, hsame⟩ :=
        exists_tempoParts binary (fixed q rfl) hq
      obtain ⟨rounded, hrounded, -⟩ := exists_roundPlaces binary hrange.1 hrange.2
      have hfinite : whole = (whole.map Quantity.value).map .finite := by
        rw [List.map_map]
        exact ((List.map_congr_left fun step h ↦ (hwhole step h).eq_finite.symm).trans
          (List.map_id' whole)).symm
      generalize whole.map Quantity.value = steps at hproduct hfinite
      rw [hparts]
      refine ⟨iff_of_true ⟨_, rfl⟩ (by rintro _ ⟨⟩; rfl), ?_⟩
      rintro _ ⟨⟩
      refine ⟨steps ++ [rounded], .inr ⟨_, rfl, Bool.eq_false_iff.mpr hone, steps, last, rounded,
        hparts.trans (by rw [hfinite]), ?_, hrounded, rfl⟩, ?_, ?_⟩
      · rw [hproduct]
        rfl
      · dsimp only
        rw [hfinite, hrounded, List.map_append, List.map_append, List.map_map]
        rfl
      · rw [prod_eq_one_iff binary hq hproduct hrange hfast hslow hsame hrounded, KeepsPace]
        exact ⟨fun h t ht ↦ Option.some.inj ht ▸ h, fun h ↦ h _ rfl⟩
    · rw [tempoParts_infinite]
      exact ⟨iff_of_false (by rintro ⟨_, ⟨⟩⟩) fun h ↦ absurd (h _ rfl) (by decide), by rintro _ ⟨⟩⟩

end Steps

/-! ## The filters of a sound -/

section Sound

variable [rounding : Rounding] {canvas : Canvas} {layer : Layer} {audio : Audio}

/-- A time that can be written in milliseconds. -/
def HasMilliseconds (x : Quantity) : Prop :=
  ∃ y, (Number.real x).mul 1000 = .ok (.real y) ∧ y.isFinite = true

/-- The times of a sound can be written in milliseconds, and its tempo is finite. -/
structure IsPlayable (layer : Layer) (audio : Audio) : Prop where
  tempo : ∀ tempo ∈ audio.tempo, tempo.isFinite = true
  echo : ∀ delay ∈ audio.echoDelay, HasMilliseconds delay
  start : Quantity.lt (.finite 0) layer.startTime = true → HasMilliseconds layer.startTime

/-- A product with a quantity is a product of quantities. -/
theorem real_of_mul {x : Quantity} {n m : Number} (h : (Number.real x).mul n = .ok m) :
    ∃ y, m = .real (x.mul y) := by
  cases n with
  | whole n =>
    obtain ⟨_, hx, h⟩ :=
      bind_eq_ok.mp (show (Number.combine _ _ (.real x) (.whole n)) = .ok m from h)
    obtain rfl := Except.ok.inj hx
    obtain ⟨y, -, h⟩ := bind_eq_ok.mp h
    exact ⟨y, (pure_eq_ok.mp h).symm⟩
  | real y => exact ⟨y, (Except.ok.inj h).symm⟩

/-- A finite product has a finite factor on the left. -/
theorem isFinite_of_mul {x y : Quantity} (h : (x.mul y).isFinite = true) : x.isFinite = true := by
  cases hx : x.value? with
  | some q => exact Quantity.isFinite_iff.mpr ⟨q, hx⟩
  | none =>
    rw [Quantity.mul, hx] at h
    cases hy : y.value? <;> rw [hy] at h <;> dsimp only at h <;> split at h <;> cases h

/-- A reader of whole numbers that reads what is finite reads milliseconds if there are any. -/
theorem hasMilliseconds_iff {x : Quantity} {read : Number → Except Error Int}
    (hread : ∀ y : Quantity, (∃ n, read (.real y) = .ok n) ↔ y.isFinite = true) :
    (∃ m, (Number.real x).mul 1000 = .ok m ∧ ∃ n, read m = .ok n) ↔ HasMilliseconds x := by
  constructor
  · rintro ⟨m, hm, hn⟩
    obtain ⟨y, rfl⟩ := real_of_mul hm
    exact ⟨_, hm, (hread _).mp hn⟩
  · rintro ⟨y, hy, hfinite⟩
    exact ⟨_, hy, (hread y).mpr hfinite⟩

theorem exists_delayFilters {start : Quantity} : (∃ filters, delayFilters start = .ok filters) ↔
    (Quantity.lt (.finite 0) start = true → HasMilliseconds start) := by
  rw [delayFilters]
  cases hpos : Quantity.lt (.finite 0) start with
  | false => exact iff_of_true ⟨[], rfl⟩ (by rintro ⟨⟩)
  | true =>
    rw [← hasMilliseconds_iff Number.exists_roundWhole]
    simp only [Bool.not_true, Bool.false_eq_true, ↓reduceIte, exists_bind_eq_ok, exists_pure_eq_ok,
      and_true, forall_const]

theorem exists_echoFilters (valid : audio.IsValid) : (∃ filters, echoFilters audio = .ok filters) ↔
    ∀ delay ∈ audio.echoDelay, HasMilliseconds delay := by
  rw [echoFilters]
  cases hecho : audio.echoDelay with
  | none => exact iff_of_true ⟨[], rfl⟩ (by rintro _ ⟨⟩)
  | some delay =>
    have hne := Quantity.eq_zero_of_pos (valid.echoDelay delay hecho)
    simp only [hne, Bool.false_eq_true, ↓reduceIte, exists_bind_eq_ok, exists_pure_eq_ok, and_true,
      Option.mem_some_iff, forall_eq', ← hasMilliseconds_iff Number.exists_wholePart]

/-- The filters of a sound in their order. -/
theorem soundFilters_eq_ok {D : Quantity} (hduration : layer.duration = some D)
    {filters : List Filter} :
    soundFilters canvas layer (.audio audio) = .ok filters ↔ ∃ reset tempo echo delay,
      (Expr.var "PTS").sub (.var "STARTPTS") = .ok reset ∧ tempoFilters audio.tempo = .ok tempo ∧
        echoFilters audio = .ok echo ∧ delayFilters layer.startTime = .ok delay ∧
          filters = cutFilter "atrim" audio.source ++ [.withArgs "asetpts" [.expr reset]] ++
            [.named "atrim" [("duration", .quantity D)]] ++ tempo ++
              passFilter "highpass" audio.highpass ++ passFilter "lowpass" audio.lowpass ++ echo ++
                volumeFilters audio.volume ++ soundFades canvas layer audio ++ delay := by
  rw [soundFilters, hduration]
  simp only [Sound.audio?, toneFilters, bind_eq_ok, pure_eq_ok]
  constructor
  · rintro ⟨reset, hreset, _, ⟨tempo, htempo, echo, hecho, rfl⟩, delay, hdelay, rfl⟩
    refine ⟨reset, tempo, echo, delay, hreset, htempo, hecho, hdelay, ?_⟩
    simp only [List.append_assoc]
    rfl
  · rintro ⟨reset, tempo, echo, delay, hreset, htempo, hecho, hdelay, rfl⟩
    refine ⟨reset, hreset, _, ⟨tempo, htempo, echo, hecho, rfl⟩, delay, hdelay, ?_⟩
    simp only [List.append_assoc]
    rfl

/-! ## What keeps the length -/

omit rounding in
theorem keepsLength_of_name {filter : Filter} {name : String} (h : filter.name = name)
    (hcut : name ≠ "atrim") (htempo : name ≠ "atempo") : filter.KeepsLength := by
  rw [Filter.KeepsLength, h]
  exact ⟨hcut, htempo⟩

omit rounding in
theorem name_of_mem_passFilter {name : String} {limit : Option Quantity} {filter : Filter}
    (h : filter ∈ passFilter name limit) : filter.name = name := by
  unfold passFilter at h
  split at h
  · split at h
    · cases h
    · rw [List.mem_singleton.mp h]
      rfl
  · cases h

theorem name_of_mem_echoFilters {filters : List Filter} (hok : echoFilters audio = .ok filters)
    {filter : Filter} (h : filter ∈ filters) : filter.name = "aecho" := by
  unfold echoFilters at hok
  split at hok
  · cases pure_eq_ok.mp hok
    cases h
  · split at hok
    · cases pure_eq_ok.mp hok
      cases h
    · obtain ⟨_, -, hok⟩ := bind_eq_ok.mp hok
      obtain ⟨_, -, hok⟩ := bind_eq_ok.mp hok
      cases pure_eq_ok.mp hok
      rw [List.mem_singleton.mp h]
      rfl

omit rounding in
theorem name_of_mem_volumeFilters {volume : Quantity} {filter : Filter}
    (h : filter ∈ volumeFilters volume) : filter.name = "volume" := by
  unfold volumeFilters at h
  split at h
  · cases h
  · rw [List.mem_singleton.mp h]
    rfl

theorem name_of_mem_soundFades {filter : Filter} (h : filter ∈ soundFades canvas layer audio) :
    filter.name = "afade" := by
  unfold soundFades at h
  obtain h | h := List.mem_append.mp h <;> split at h
  -- no fade is asked for: it is not there, or it takes no time
  case h_2 | h_2 => cases h
  all_goals split at h
  case isTrue | isTrue => cases h
  all_goals
    rw [List.mem_singleton.mp h]
    rfl

theorem name_of_mem_delayFilters {start : Quantity} {filters : List Filter}
    (hok : delayFilters start = .ok filters) {filter : Filter} (h : filter ∈ filters) :
    filter.name = "adelay" := by
  unfold delayFilters at hok
  split at hok
  · cases pure_eq_ok.mp hok
    cases h
  · obtain ⟨_, -, hok⟩ := bind_eq_ok.mp hok
    obtain ⟨_, -, hok⟩ := bind_eq_ok.mp hok
    cases pure_eq_ok.mp hok
    rw [List.mem_singleton.mp h]
    rfl

/-! ## The fade at the end -/

/-- What can be written in milliseconds is finite. -/
theorem HasMilliseconds.exists_value {x : Quantity} (h : HasMilliseconds x) :
    ∃ q, x.value? = some q := by
  obtain ⟨_, hy, hfinite⟩ := h
  obtain ⟨y, hmul⟩ := real_of_mul hy
  cases hmul
  exact Quantity.isFinite_iff.mp (isFinite_of_mul hfinite)

/-- The start of a layer is finite if its sound can be delayed to it. -/
theorem exists_start {x : Quantity} (hx : Layer.IsStart x) {filters : List Filter}
    (h : delayFilters x = .ok filters) : ∃ q, x.value? = some q := by
  have hdelay := exists_delayFilters.mp ⟨filters, h⟩
  rcases Quantity.value?_or_endless hx.nonnegative with ⟨q, -, hq⟩ | rfl
  · exact ⟨q, hq⟩
  · exact (hdelay rfl).exists_value

/-- The length of a clip is its duration, where nothing is rounded. -/
theorem value?_clip (canvas : Canvas) (exact : rounding.IsExact) {D s : Rat}
    (hduration : layer.duration = some (.finite D)) (hs : layer.startTime.value? = some s) :
    ((effectiveEnd canvas layer).sub layer.startTime).value? = some D := by
  have hend : effectiveEnd canvas layer = layer.startTime.add (.finite D) := by
    rw [effectiveEnd, Layer.endTime, hduration]
    rfl
  rw [hend, Quantity.value?_sub exact (Quantity.value?_add exact hs rfl) hs, add_sub_cancel_left]

omit rounding in
/-- The larger one of zero and a value that is not below it. -/
theorem max_zero_of_value? {x : Quantity} {q : Rat} (hx : x.value? = some q) (hq : 0 ≤ q) :
    Quantity.max (.finite 0) x = .finite q := by
  rw [Quantity.max]
  split
  · rename_i hlt
    obtain ⟨r, -, rfl⟩ | rfl := Quantity.lt_zero_iff.mp hlt <;> cases hx
    rfl
  · rename_i hlt
    rw [Quantity.lt_iff_value? rfl hx] at hlt
    rw [le_antisymm (not_lt.mp hlt) hq]

/-- A fade that fits ends with the clip. -/
theorem closing_mem_soundFades (canvas : Canvas) (exact : rounding.IsExact) {D s f : Rat} {fade : Quantity}
    (hduration : layer.duration = some (.finite D)) (hs : layer.startTime.value? = some s)
    (hfade : audio.fadeOut = some fade) (hpositive : Quantity.lt (.finite 0) fade = true)
    (hf : fade.value? = some f) (hfits : f ≤ D) :
    .named "afade" [("t", .plain "out"), ("st", .quantity (.finite (D - f))), ("d", .quantity fade)]
      ∈ soundFades canvas layer audio := by
  have hclip := Quantity.value?_sub exact (value?_clip canvas exact hduration hs) hf
  have hstart : Quantity.max (.finite 0)
      (((effectiveEnd canvas layer).sub layer.startTime).sub fade) = .finite (D - f) :=
    max_zero_of_value? hclip (sub_nonneg.mpr hfits)
  rw [soundFades, hfade, List.mem_append]
  refine .inr ?_
  dsimp only
  rw [Quantity.eq_zero_of_pos hpositive, hstart]
  exact List.mem_singleton_self _

/-- Behind all its filters a sound that lasts has its duration, divided by its tempo. -/
theorem lengthBehind_soundFilters {D L : Rat} (hD : 0 < D)
    (hduration : layer.duration = some (.finite D)) (long : LastsFor audio.source L D)
    {filters : List Filter} (h : soundFilters canvas layer (.audio audio) = .ok filters) :
    ∃ tempo, tempoFilters audio.tempo = .ok tempo ∧
      lengthBehind filters L = lengthBehind tempo D := by
  obtain ⟨reset, tempo, echo, delay, -, htempo, hecho, hdelay, rfl⟩ :=
    (soundFilters_eq_ok hduration).mp h
  refine ⟨tempo, htempo, ?_⟩
  have hreset : ∀ filter ∈ [Filter.withArgs "asetpts" [.expr reset]], filter.KeepsLength := by
    rintro _ (_ | ⟨_, ⟨⟩⟩)
    exact keepsLength_of_name (show _ = "asetpts" from rfl) (by decide) (by decide)
  have hlimit : lengthBehind [.named "atrim" [("duration", .quantity (.finite D))]]
      (lengthBehind (cutFilter "atrim" audio.source) L) = D :=
    Filter.lengthBehind_limit hD long.le_lengthBehind
  simp only [lengthBehind_append]
  rw [lengthBehind_of_keepsLength hreset, hlimit]
  repeat rw [lengthBehind_of_keepsLength]
  all_goals intro filter hfilter
  · exact keepsLength_of_name (name_of_mem_passFilter hfilter) (by decide) (by decide)
  · exact keepsLength_of_name (name_of_mem_passFilter hfilter) (by decide) (by decide)
  · exact keepsLength_of_name (name_of_mem_echoFilters hecho hfilter) (by decide) (by decide)
  · exact keepsLength_of_name (name_of_mem_volumeFilters hfilter) (by decide) (by decide)
  · exact keepsLength_of_name (name_of_mem_soundFades hfilter) (by decide) (by decide)
  · exact keepsLength_of_name (name_of_mem_delayFilters hdelay hfilter) (by decide) (by decide)

/-- The filters of a sound are there just if it is playable. -/
theorem exists_soundFilters (binary : rounding.IsBinary) {D : Quantity} (valid : audio.IsValid)
    (hduration : layer.duration = some D)
    (fixed : ∀ q, audio.tempo = some (.finite q) → rounding.round q = .finite q) :
    (∃ filters, soundFilters canvas layer (.audio audio) = .ok filters) ↔
      IsPlayable layer audio := by
  constructor
  · rintro ⟨filters, h⟩
    obtain ⟨-, tempo, echo, delay, -, htempo, hecho, hdelay, -⟩ :=
      (soundFilters_eq_ok hduration).mp h
    exact ⟨(tempoFilters_iff binary valid.tempo fixed).1.mp ⟨tempo, htempo⟩,
      (exists_echoFilters valid).mp ⟨echo, hecho⟩, exists_delayFilters.mp ⟨delay, hdelay⟩⟩
  · rintro ⟨htempo, hecho, hstart⟩
    obtain ⟨tempo, htempo⟩ := (tempoFilters_iff binary valid.tempo fixed).1.mpr htempo
    obtain ⟨echo, hecho⟩ := (exists_echoFilters valid).mpr hecho
    obtain ⟨delay, hdelay⟩ := exists_delayFilters.mpr hstart
    exact ⟨_, (soundFilters_eq_ok hduration).mpr
      ⟨_, tempo, echo, delay, rfl, htempo, hecho, hdelay, rfl⟩⟩

/-- **A sound plays for its duration only at the tempo one.**  The filters are there just if the
sound is playable, and behind them a source that lasts is as long as the duration divided by the
steps of the tempo.  So it is as long as the duration just if the tempo is one when it is rounded;
and the fade at the end, which stops where the duration does, stops at the end of the sound just
then. -/
theorem plays_for_duration_iff (binary : rounding.IsBinary) (canvas : Canvas) {D L : Rat}
    (valid : layer.IsValid) (hcontent : layer.content = .audio audio)
    (hduration : layer.duration = some (.finite D)) (hD : 0 < D)
    (fixed : ∀ q, audio.tempo = some (.finite q) → rounding.round q = .finite q)
    (long : LastsFor audio.source L D) :
    ((∃ filters, soundFilters canvas layer (.audio audio) = .ok filters) ↔
        IsPlayable layer audio) ∧
      ∀ filters, soundFilters canvas layer (.audio audio) = .ok filters →
        (∃ steps, ArePlayedSteps audio.tempo steps ∧
          lengthBehind filters L = D / steps.prod) ∧
        (lengthBehind filters L = D ↔ KeepsPace audio.tempo) ∧
        (rounding.IsExact → ∀ fade ∈ audio.fadeOut, ∀ f, fade.value? = some f → f ≤ D →
          .named "afade" [("t", .plain "out"), ("st", .quantity (.finite (D - f))),
              ("d", .quantity fade)] ∈ filters ∧
            (D - f = lengthBehind filters L - f ↔ KeepsPace audio.tempo)) := by
  have haudio : audio.IsValid := by
    have := valid.content
    rwa [hcontent] at this
  refine ⟨exists_soundFilters binary haudio hduration fixed, fun filters h ↦ ?_⟩
  obtain ⟨tempo, htempo, hlength⟩ := lengthBehind_soundFilters hD hduration long h
  obtain ⟨steps, hsteps, rfl, hpace⟩ :=
    (tempoFilters_iff binary haudio.tempo fixed).2 tempo htempo
  rw [lengthBehind_steps] at hlength
  have hkept : lengthBehind filters L = D ↔ KeepsPace audio.tempo := by
    rw [hlength, ← hpace, div_eq_mul_inv, mul_eq_left₀ hD.ne', inv_eq_one]
  refine ⟨⟨steps, hsteps, hlength⟩, hkept, fun exact fade hfade f hf hfits ↦ ⟨?_, ?_⟩⟩
  · obtain ⟨_, _, _, delay, -, -, -, hdelay, rfl⟩ := (soundFilters_eq_ok hduration).mp h
    obtain ⟨s, hs⟩ := exists_start valid.startTime hdelay
    have hmem := closing_mem_soundFades canvas exact hduration hs hfade
      (haudio.fadeOut fade hfade) hf hfits
    exact List.mem_append_left _ (List.mem_append_right _ hmem)
  · rw [sub_left_inj, eq_comm, hkept]

end Sound

/-- Music for ten seconds, at twice its tempo, faded out for two seconds. -/
def hastenedMusic : Audio where
  source := { path := "m.mp3" }
  fadeOut := some (.finite 2)
  tempo := some (.finite 2)

def hastenedMusicLayer : Layer where
  duration := some (.finite 10)
  content := .audio hastenedMusic

theorem hastenedMusicLayer_isValid : hastenedMusicLayer.IsValid where
  startTime := ⟨by decide, by rintro ⟨⟩⟩
  duration := by
    rintro _ ⟨⟩
    decide
  position := by rintro _ ⟨⟩
  style := by rintro _ ⟨⟩
  content :=
    { source := ⟨by decide, by rintro _ ⟨⟩, by rintro _ ⟨⟩⟩
      volume := by decide
      fadeIn := by rintro _ ⟨⟩
      fadeOut := by
        rintro _ ⟨⟩
        decide
      tempo := by
        rintro _ ⟨⟩
        decide
      lowpass := by rintro _ ⟨⟩
      highpass := by rintro _ ⟨⟩
      echoDelay := by rintro _ ⟨⟩
      echoDecay := by rintro _ ⟨⟩ }

/-- The music is over after five seconds, three seconds before its fade begins. -/
theorem hastenedMusic_isShort : let _ : Rounding := .exact
    ∃ filters, soundFilters ⟨1920, 1080, .finite 30, .finite 10⟩ hastenedMusicLayer
        (.audio hastenedMusic) = .ok filters ∧
      lengthBehind filters 60 = 5 ∧
        .named "afade" [("t", .plain "out"), ("st", .quantity (.finite 8)),
          ("d", .quantity (.finite 2))] ∈ filters := by
  let _ : Rounding := .exact
  have binary := Rounding.exact_isExact.isBinary
  have hlong : LastsFor hastenedMusic.source 60 10 := ⟨0, rfl, by norm_num, by rintro _ ⟨⟩⟩
  obtain ⟨hplayable, hplayed⟩ := plays_for_duration_iff binary
    ⟨1920, 1080, .finite 30, .finite 10⟩ hastenedMusicLayer_isValid rfl rfl (by norm_num)
    (fun _ _ ↦ rfl) hlong
  obtain ⟨filters, hfilters⟩ := hplayable.mpr
    ⟨by rintro _ ⟨⟩; rfl, by rintro _ ⟨⟩, fun h ↦ absurd h (by decide)⟩
  obtain ⟨⟨steps, hsteps, hlength⟩, -, hfade⟩ := hplayed filters hfilters
  have hstart := (hfade Rounding.exact_isExact (.finite 2) rfl 2 rfl (by norm_num)).1
  have height : (10 : Rat) - 2 = 8 := by norm_num
  rw [height] at hstart
  refine ⟨filters, hfilters, ?_, hstart⟩
  rcases hsteps with ⟨hone, -⟩ | ⟨_, ⟨⟩, -, whole, last, rounded, hparts, -, hrounded, rfl⟩
  · exact absurd (hone _ rfl) (by decide)
  · -- a tempo in the range is its only step
    have honly : tempoParts (.finite 2) = some ([], .finite 2) := by
      have hfast : takeSteps isFast (.finite 2) (.finite 2) = some (0, .finite 2) :=
        Loop.run_of_eq_false (by decide) 0
      have hslow : takeSteps isSlow (.finite (1 / 2)) (.finite 2) = some (0, .finite 2) :=
        Loop.run_of_eq_false (by decide +kernel) 0
      rw [tempoParts]
      dsimp only
      rw [hfast]
      exact congrArg (Option.bind · _) hslow
    obtain ⟨hwhole, hlast⟩ := Prod.mk.inj (Option.some.inj (honly.symm.trans hparts))
    obtain rfl := List.map_eq_nil_iff.mp hwhole.symm
    obtain rfl := Quantity.finite.inj hlast
    have hplaces : (Quantity.finite 2).roundPlaces 6 = .finite 2 := by decide +kernel
    obtain rfl := Quantity.finite.inj (hplaces.symm.trans hrounded)
    rw [hlength]
    norm_num

end Command
end Montage
