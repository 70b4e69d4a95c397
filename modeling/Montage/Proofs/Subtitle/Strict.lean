import Montage.Proofs.Subtitle.Block
import Montage.Subtitle.Format

/-!
# Strict and lenient reading

A strict reader and a lenient one look at the same pieces in the same order, and differ only in what
they do with a malformed one.  So the warnings of the lenient reader tell what the strict one does:
without a warning both readings are the same, and otherwise the strict reader stops at the part that
the first warning is about (`SubtitleFormat.read_strict`).

Both readers also fail alike where something else goes wrong, unless the strict one has stopped
before.  Hence nothing has to be known about whether the lenient reading succeeds.
-/

set_option autoImplicit false

namespace Montage

/-! ## Two readings -/

/-- A strict reading of what a lenient reader reads as `lenient`: the same one if the lenient reader
warns of nothing, and else a refusal of the part that it warns of first. -/
inductive Reported.IsStrictOf {α : Type} (lenient : Reported α) : Reported α → Prop
  | same (silent : lenient.warnings = []) : IsStrictOf lenient lenient
  | refused {part : Unreadable} {rest : List Warning} (block : String)
      (warned : lenient.warnings = .skipped part :: rest) :
      IsStrictOf lenient ⟨.error (.unreadable part block), []⟩

/-- What is done silently with two readings leaves their relation as it is. -/
theorem Reported.IsStrictOf.bind {α β : Type} {lenient strict : Reported α}
    (h : lenient.IsStrictOf strict) (f : α → β) :
    (lenient >>= fun a ↦ pure (f a)).IsStrictOf (strict >>= fun a ↦ pure (f a)) := by
  obtain ⟨result, warnings⟩ := lenient
  have hwarnings : ((⟨result, warnings⟩ : Reported α) >>= fun a ↦ pure (f a)).warnings = warnings := by
    cases result with
    | error e => rfl
    | ok a => exact List.append_nil warnings
  cases h with
  | same silent => exact .same (hwarnings.trans silent)
  | refused block warned => exact .refused block (hwarnings.trans warned)

/-! ## Pieces -/

/-- **One piece after the other, a strict reader does what the warnings of a lenient one say.** -/
theorem collect_strict (parts : List LabelledPiece) :
    (collect false parts).IsStrictOf (collect true parts) := by
  induction parts with
  | nil => exact .same rfl
  | cons part rest ih =>
    obtain ⟨label, source, piece⟩ := part
    cases piece with
    | error e => exact .same rfl
    | ok piece =>
      cases piece with
      | subtitle subtitle =>
        rw [collect_subtitle, collect_subtitle]
        exact ih.bind _
      | nothing =>
        rw [collect_nothing, collect_nothing]
        exact ih
      | malformed =>
        exact .refused (String.ofList source) (congrArg Reported.warnings (collect_malformed rest))

/-! ## Documents -/

variable [Rounding]

/-- What a line of a script turns out to be is the same to every reader. -/
theorem Script.piecesFrom_strict (options : ReadOptions) (strict inEvents : Bool)
    (fields : List (List Char)) (number : Nat) (lines : List (List Char)) :
    piecesFrom { options with strict } inEvents fields number lines
      = piecesFrom options inEvents fields number lines := by
  induction lines generalizing inEvents fields number with
  | nil => rfl
  | cons line rest ih =>
    simp only [piecesFrom, ih]
    rfl

namespace SubtitleFormat

/-- A format reads strictly what the warnings of a lenient reading let through. -/
theorem read_isStrictOf (format : SubtitleFormat) (parseStyles preserveEmpty : Bool)
    (content : String) :
    (format.read (some { strict := false, parseStyles, preserveEmpty }) content).IsStrictOf
      (format.read (some { strict := true, parseStyles, preserveEmpty }) content) := by
  cases format with
  | srt => exact (collect_strict (Srt.pieces { parseStyles, preserveEmpty } content)).bind _
  | vtt => exact (collect_strict (Vtt.pieces { parseStyles, preserveEmpty } content)).bind _
  | ass =>
    have hpieces : Script.pieces { strict := true, parseStyles, preserveEmpty } content
        = Script.pieces { strict := false, parseStyles, preserveEmpty } content :=
      Script.piecesFrom_strict { parseStyles, preserveEmpty } true _ _ _ _
    simp only [read, Option.getD_some, Script.read, hpieces]
    exact (collect_strict _).bind _
  | json => exact .same rfl

/-- **A strict reading is told by the warnings of a lenient one.**  Where the lenient reader warns of
nothing, both readings are the same.  Otherwise the strict one fails at the part that the lenient
one skips first, under the number that its warning names, which is zero for a header that is
missing. -/
theorem read_strict (format : SubtitleFormat) (parseStyles preserveEmpty : Bool)
    (content : String) :
    let lenient := format.read (some { strict := false, parseStyles, preserveEmpty }) content
    let strict := format.read (some { strict := true, parseStyles, preserveEmpty }) content
    (lenient.warnings = [] → strict = lenient) ∧
      ∀ first rest, lenient.warnings = first :: rest → ∃ part block,
        first = .skipped part ∧ strict = ⟨.error (.unreadable part block), []⟩ := by
  dsimp only
  have h := format.read_isStrictOf parseStyles preserveEmpty content
  generalize format.read (some { strict := true, parseStyles, preserveEmpty }) content = strict at h
  cases h with
  | same silent =>
    refine ⟨fun _ ↦ rfl, fun first rest warned ↦ ?_⟩
    rw [silent] at warned
    cases warned
  | @refused part _ block warned =>
    refine ⟨fun silent ↦ ?_, fun first rest h ↦ ?_⟩
    · rw [silent] at warned
      cases warned
    · obtain ⟨rfl, -⟩ := List.cons.inj (h.symm.trans warned)
      exact ⟨part, block, rfl, rfl⟩

/-- A note, a cue and a stray line, in blocks as both formats of blocks have them. -/
def strayLine : String :=
  "NOTE draft\n\n1\n00:00:01,000 --> 00:00:02,000\nHi\n\nstray"

omit [Rounding] in
theorem strayLine_strict :
    (@read .binary64 .vtt (some {}) strayLine).warnings
        = [.skipped .vttHeader, .skipped (.vttCue 3)] ∧
      (∃ block, @read .binary64 .vtt (some { strict := true }) strayLine
        = ⟨.error (.unreadable .vttHeader block), []⟩) ∧
      (@read .binary64 .srt (some {}) strayLine).warnings
        = [.skipped (.srtBlock 1), .skipped (.srtBlock 3)] ∧
      (∃ block, @read .binary64 .srt (some { strict := true }) strayLine
        = ⟨.error (.unreadable (.srtBlock 1) block), []⟩) ∧
      (@read .binary64 .ass (some {}) strayLine).warnings = [] ∧
      @read .binary64 .ass (some { strict := true }) strayLine
        = @read .binary64 .ass (some {}) strayLine := by
  have hvtt : (@read .binary64 .vtt (some {}) strayLine).warnings
      = [.skipped .vttHeader, .skipped (.vttCue 3)] := by decide +kernel
  have hsrt : (@read .binary64 .srt (some {}) strayLine).warnings
      = [.skipped (.srtBlock 1), .skipped (.srtBlock 3)] := by decide +kernel
  have hass : (@read .binary64 .ass (some {}) strayLine).warnings = [] := by decide +kernel
  obtain ⟨_, header, ⟨⟩, hheader⟩ := (@read_strict .binary64 .vtt true false strayLine).2 _ _ hvtt
  obtain ⟨_, block, ⟨⟩, hblock⟩ := (@read_strict .binary64 .srt true false strayLine).2 _ _ hsrt
  exact ⟨hvtt, ⟨header, hheader⟩, hsrt, ⟨block, hblock⟩, hass,
    (@read_strict .binary64 .ass true false strayLine).1 hass⟩

end SubtitleFormat
end Montage
