import Montage.Proofs.Subtitle.Numbered
import Montage.Proofs.Subtitle.Srt
import Montage.Subtitle.Format

/-!
# Documents look like what they are

What a document looks like is found out from its front, but for one thing: a document that names the
section of events anywhere looks like a script, whatever it is.  So a document that was written in a
format looks like one of that format, unless it is an SRT or a JSON document whose subtitles happen
to speak of a section of a script (`SubtitleFormat.detect_generated`).

The opening of a document decides because of the order in which the looks are tried.  WebVTT and
scripts open with a word of their own.  A JSON document opens with a brace.  An SRT document opens
with a number, which looks like nothing, and then a window of time with commas in it.
-/

set_option autoImplicit false

namespace Montage

/-! ## Texts -/

/-- A pattern stands somewhere in a text if it is a part of it. -/
theorem occursIn_iff {pattern s : List Char} : occursIn pattern s = true ↔ pattern <:+: s := by
  induction s with
  | nil => rw [occursIn, List.isEmpty_iff, List.infix_nil]
  | cons c s ih =>
    rw [occursIn, Bool.or_eq_true, List.isPrefixOf_iff_prefix, ih, List.infix_cons_iff]

/-- The end of a line becomes a line feed, whatever follows. -/
theorem unifyLineEnds_line {line eol : List Char} (hline : '\r' ∉ line) (heol : IsLineEnd eol)
    (rest : List Char) : unifyLineEnds (line ++ (eol ++ rest)) = line ++ '\n' :: unifyLineEnds rest := by
  rw [unifyLineEnds_append hline]
  rcases heol with rfl | rfl
  · rw [unifyLineEnds_append (by decide), List.singleton_append]
  · rw [List.cons_append, List.singleton_append, unifyLineEnds]

namespace SubtitleFormat

/-! ## Looks -/

/-- The text of a document as its looks are judged. -/
def judged (content : String) : List Char := trimFront (normalizeText content.toList)

/-- A document names a section of a script where that makes it look like one: the section of
information close to its front, or the section of events anywhere. -/
def NamesSection (content : String) : Prop :=
  "[script info]".toList <:+: (lowered (judged content)).take 200
    ∨ "[events]".toList <:+: lowered (judged content)

instance (content : String) : Decidable (NamesSection content) :=
  inferInstanceAs (Decidable (_ ∨ _))

/-- The format that a document of a format looks like. -/
def looks (format : SubtitleFormat) (content : String) : SubtitleFormat :=
  if (format = srt ∨ format = json) ∧ NamesSection content then ass else format

/-- What looks are judged by does not hold the mark that may open a document. -/
theorem judged_opening (options : WriteOptions) {text : String} {c : Char} {rest : List Char}
    (htext : text.toList = options.opening.toList ++ c :: rest) (hmark : c ≠ byteOrderMark)
    (hsolid : isBlank c = false) (hline : c ≠ '\r') : judged text = c :: unifyLineEnds rest := by
  rw [judged, htext, normalizeText,
    List.dropWhile_append_of_pos fun c h ↦ beq_iff_eq.mpr (WriteOptions.mem_opening h),
    List.dropWhile_cons_of_neg (by simpa using hmark), ← List.singleton_append,
    unifyLineEnds_append (by simpa using Ne.symm hline), List.singleton_append,
    trimFront_cons hsolid]

theorem detect_eq {content : String} {format : SubtitleFormat}
    (h : ofContent? content = some format) : detect content = .ok format := by
  rw [detect, h]

/-- A document that opens with the word of WebVTT looks like one of that format. -/
theorem detect_vtt {content : String} (h : "WEBVTT".toList <+: judged content) :
    detect content = .ok vtt := by
  refine detect_eq ?_
  rw [ofContent?, ← judged]
  simp only [List.isPrefixOf_iff_prefix.mpr h, if_true]

section

variable {content : String} {c : Char} {rest : List Char} (hopens : judged content = c :: rest)
  (hword : c ≠ 'W')

include hopens hword

/-- Any other document looks like a script if it names a section of one, and is looked at further if
it names none. -/
theorem ofContent?_opening : ofContent? content =
    if NamesSection content then some ass
    else if c = '\x7b' ∨ c = '[' then some json
    else (linesOf (c :: rest)).findSome? ofLine? := by
  have hvtt : "WEBVTT".toList.isPrefixOf (c :: rest) = false := by
    simp [List.isPrefixOf, Ne.symm hword]
  simp only [NamesSection, ← occursIn_iff]
  rw [ofContent?, ← judged, hopens]
  simp only [hvtt, Bool.false_eq_true, if_false, List.head?_cons, Bool.or_eq_true, beq_iff_eq,
    Option.some.injEq]

theorem detect_ass (hnames : NamesSection content) : detect content = .ok ass :=
  detect_eq (by rw [ofContent?_opening hopens hword, if_pos hnames])

/-- What a document without sections looks like is what it looks like but for its sections. -/
theorem detect_looks {format : SubtitleFormat} (hformat : format = srt ∨ format = json)
    (h : (if c = '\x7b' ∨ c = '[' then some json else (linesOf (c :: rest)).findSome? ofLine?)
      = some format) : detect content = .ok (format.looks content) := by
  refine detect_eq ?_
  rw [ofContent?_opening hopens hword, h, looks]
  split_ifs <;> simp_all

end

/-! ## Openings -/

variable {subtitles : List Subtitle} {text : String}

/-- A document in JSON opens with a brace. -/
theorem detect_toText (indent : Option String) :
    detect (Subtitle.toText indent subtitles)
      = .ok (json.looks (Subtitle.toText indent subtitles)) := by
  obtain ⟨rest, htext⟩ : ∃ rest, (Subtitle.toText indent subtitles).toList
      = (WriteOptions.opening {}).toList ++ '\x7b' :: rest := by
    apply Exists.intro
    simp only [Subtitle.toText, Subtitle.document, Json.text, Json.textAt, String.toList_append]
    rfl
  exact detect_looks (judged_opening {} htext (by decide) (by decide) (by decide)) (by decide)
    (.inr rfl) rfl

variable [Rounding]

/-- A script opens with the section of information. -/
theorem detect_write_ass {options : Option WriteOptions} {heading : Script.Heading}
    (h : ass.write options heading subtitles = .ok text) : detect text = .ok ass := by
  obtain ⟨script, hscript, h⟩ := bind_eq_ok.mp h
  obtain ⟨lines, hlines, hscript⟩ := bind_eq_ok.mp hscript
  obtain ⟨style, -, hlines⟩ := bind_eq_ok.mp hlines
  obtain ⟨dialogue, -, hscript⟩ := bind_eq_ok.mp hscript
  obtain ⟨rest, htext⟩ : ∃ rest, text.toList
      = (options.getD {}).opening.toList ++ '[' :: ("Script Info]".toList ++ rest) := by
    apply Exists.intro
    rw [← pure_eq_ok.mp h, ← pure_eq_ok.mp hscript, ← pure_eq_ok.mp hlines, List.cons_append,
      List.map_cons, String.join_cons]
    simp only [String.toList_append, List.append_assoc]
    rfl
  have hopens := judged_opening _ htext (by decide) (by decide) (by decide)
  refine detect_ass hopens (by decide) (.inl ?_)
  rw [hopens, unifyLineEnds_append (by decide)]
  exact (List.prefix_append "[script info]".toList _).isInfix

/-- A WebVTT document opens with the word of the format. -/
theorem detect_write_vtt {options : WriteOptions} (h : Vtt.write options subtitles = .ok text) :
    detect text = .ok vtt := by
  obtain ⟨cues, -, h⟩ := bind_eq_ok.mp h
  obtain ⟨rest, htext⟩ : ∃ rest, text.toList
      = options.opening.toList ++ 'W' :: ("EBVTT".toList ++ rest) := by
    apply Exists.intro
    rw [← pure_eq_ok.mp h]
    simp only [String.toList_append, List.append_assoc]
    rfl
  refine detect_vtt ?_
  rw [judged_opening _ htext (by decide) (by decide) (by decide), unifyLineEnds_append (by decide)]
  exact List.prefix_append "WEBVTT".toList _

/-- An SRT document of something opens with a number and a window. -/
theorem exists_opening {options : WriteOptions} (some : subtitles ≠ [])
    (h : Srt.write options subtitles = .ok text) : ∃ start stop rest, text.toList =
      options.opening.toList ++ '1' :: (options.lineEnding.text.toList
        ++ (Srt.windowOf start stop ++ (options.lineEnding.text.toList ++ rest))) := by
  obtain ⟨first, others, hsorted⟩ := List.exists_cons_of_ne_nil (Subtitle.sorted_ne_nil some)
  obtain ⟨blocks, hblocks, h⟩ := bind_eq_ok.mp h
  rw [hsorted] at hblocks
  obtain ⟨block, hblock, hblocks⟩ := bind_eq_ok.mp hblocks
  obtain ⟨more, -, hblocks⟩ := bind_eq_ok.mp hblocks
  obtain ⟨window, hwindow, hblock⟩ := bind_eq_ok.mp hblock
  obtain ⟨start, stop, rfl⟩ := TimeNotation.exists_of_window hwindow
  refine ⟨start, stop, ?_⟩
  apply Exists.intro
  rw [← pure_eq_ok.mp h, ← pure_eq_ok.mp hblocks, ← pure_eq_ok.mp hblock, String.join_cons,
    Srt.windowOf]
  simp only [String.toList_append, List.append_assoc]
  rfl

omit [Rounding] in
/-- The window of an SRT document looks like one. -/
theorem ofLine?_windowOf (start stop : Nat) : ofLine? (Srt.windowOf start stop) = some srt := by
  have htrim : trim (Srt.windowOf start stop) = Srt.windowOf start stop := by
    obtain ⟨c, rest, hfirst, hc⟩ := TimeNotation.opensWithDigit .srt start
    rw [trim, Srt.windowOf, String.toList_append, String.toList_append, hfirst, List.cons_append,
      List.cons_append, trimFront_cons (isBlank_of_isDigit hc), ← List.cons_append]
    exact ((TimeNotation.endsSolid_textOfUnits stop).append _).trimBack_eq
  have hcomma : ',' ∈ Srt.windowOf start stop := by
    rw [Srt.windowOf, String.toList_append, String.toList_append, TimeNotation.toList_textOfUnits]
    simp [TimeNotation.srt]
  rw [ofLine?, htrim, Srt.windowOf, TimeRange.ofLine?_window TimeNotation.srt_isStandard,
    ← Srt.windowOf]
  simp [hcomma]

/-- An SRT document of something opens with a line that looks like nothing and then a window. -/
theorem detect_write_srt {options : WriteOptions} (some : subtitles ≠ [])
    (h : Srt.write options subtitles = .ok text) : detect text = .ok (srt.looks text) := by
  obtain ⟨start, stop, rest, htext⟩ := exists_opening some h
  have heol := options.lineEnding.isLineEnd
  have hplain := Srt.lineEnd_not_mem_windowOf start stop
  have hopens := judged_opening _ htext (by decide) (by decide) (by decide)
  have hlines : unifyLineEnds (options.lineEnding.text.toList
      ++ (Srt.windowOf start stop ++ (options.lineEnding.text.toList ++ rest)))
      = '\n' :: (Srt.windowOf start stop ++ '\n' :: unifyLineEnds rest) := by
    rw [← unifyLineEnds_line (hplain _ (by decide)) heol]
    exact @unifyLineEnds_line [] _ List.not_mem_nil heol _
  rw [hlines] at hopens
  refine detect_looks hopens (by decide) (.inl rfl) ?_
  have hone : ofLine? ['1'] = none := by decide
  rw [if_neg (by decide), linesOf, ← List.singleton_append, splitAll_part (by decide),
    splitAll_part (hplain _ (by decide)), List.findSome?_cons, hone, List.findSome?_cons,
    ofLine?_windowOf]

/-! ## Documents -/

/-- A document of something looks like what it is, but for the sections that it names. -/
theorem detect_write {format : SubtitleFormat} {options : Option WriteOptions}
    {heading : Script.Heading} (some : subtitles ≠ [])
    (h : format.write options heading subtitles = .ok text) :
    detect text = .ok (format.looks text) := by
  cases format with
  | srt => exact detect_write_srt some h
  | vtt =>
    rw [looks, if_neg (by simp)]
    exact detect_write_vtt h
  | ass =>
    rw [looks, if_neg (by simp)]
    exact detect_write_ass h
  | json =>
    cases h
    exact detect_toText _

/-- What a request for a format generates is written in that format. -/
theorem exists_write {request : Json} {format : SubtitleFormat} {options : Option WriteOptions}
    {given : List (String × Json)} (hformat : ofRequest request = .ok format)
    (h : Subtitle.generate subtitles request options given = .ok text) :
    ∃ heading, format.write options heading subtitles = .ok text := by
  obtain ⟨found, hfound, h⟩ := bind_eq_ok.mp h
  obtain rfl : found = format := Except.ok.inj (hfound.symm.trans hformat)
  cases found with
  | ass =>
    obtain ⟨complete, -, h⟩ := bind_eq_ok.mp h
    dsimp only at h
    split at h
    · exact ⟨_, h⟩
    · obtain ⟨style, -, h⟩ := bind_eq_ok.mp h
      exact ⟨_, h⟩
  | srt => exact ⟨{}, h⟩
  | vtt => exact ⟨{}, h⟩
  | json => exact ⟨{}, h⟩

omit [Rounding] in
/-- A format that is named is taken. -/
theorem given_named (format : SubtitleFormat) (content path : Json) :
    SubtitleFormat.given (.str format.name) content path = .ok format := by
  show ofRequest (.str format.name) = .ok format
  cases format <;> rfl

omit [Rounding] in
/-- The format of a document without a path that nothing is said about is detected. -/
theorem given_unnamed (text : String) :
    SubtitleFormat.given .null (.str text) .null = detect text := by
  rw [SubtitleFormat.given, detectFor, if_neg (by decide)]
  rfl

/-- **A generated document of something looks like what it is**, and is converted as such where
nothing is said about its format.  There is one exception: an SRT or a JSON document that names a
section of a script where sections are looked for looks like a script, and is converted as one. -/
theorem detect_generated {request : Json} {format : SubtitleFormat} {options : Option WriteOptions}
    {given : List (String × Json)} (some : subtitles ≠ [])
    (hformat : ofRequest request = .ok format)
    (hgenerated : Subtitle.generate subtitles request options given = .ok text) :
    detect text = .ok (format.looks text) ∧
      ∀ (target : Json) (readOptions : Option ReadOptions) (writeOptions : Option WriteOptions),
        Subtitle.convert (.str text) target .null readOptions writeOptions
          = Subtitle.convert (.str text) target (.str (format.looks text).name) readOptions
              writeOptions := by
  obtain ⟨heading, hwritten⟩ := exists_write hformat hgenerated
  have hdetect := detect_write some hwritten
  refine ⟨hdetect, fun target readOptions writeOptions ↦ ?_⟩
  have hnamed : SubtitleFormat.given (.str (format.looks text).name) (.str text) .null
      = SubtitleFormat.given .null (.str text) .null := by
    rw [given_named, given_unnamed, hdetect]
  rw [Subtitle.convert, Subtitle.convert, Subtitle.parse, Subtitle.parse, hnamed]

/-- A subtitle that speaks of an event, as it stands in an SRT document. -/
def invitation : List Subtitle := [
  { text := "[Event] at eight", start := .finite 1, stop := .finite 2 }]

def invitationText : String :=
  "\uFEFF1\r\n00:00:01,000 --> 00:00:02,000\r\n[Event] at eight\r\n\r\n"

omit [Rounding] in
theorem invitation_looksSrt :
    invitation ≠ [] ∧ ofRequest (.str "SRT") = .ok .srt ∧
      @Subtitle.generate .binary64 invitation (.str "SRT")
        (some { lineEnding := .crlf, addMark := true }) [] = .ok invitationText ∧
      detect invitationText = .ok .srt := by
  have hsome : invitation ≠ [] := List.cons_ne_nil _ _
  have hformat : ofRequest (.str "SRT") = .ok .srt := by rfl
  have hgenerated : @Subtitle.generate .binary64 invitation (.str "SRT")
      (some { lineEnding := .crlf, addMark := true }) [] = .ok invitationText :=
    toOption_eq_some.mp (by decide +kernel)
  have hdetect := (@detect_generated _ _ .binary64 _ _ _ _ hsome hformat hgenerated).1
  have hlooks : srt.looks invitationText = srt := by decide +kernel
  rw [hlooks] at hdetect
  exact ⟨hsome, hformat, hgenerated, hdetect⟩

/-- A subtitle that is spelled like the heading of a section, as it stands in an SRT document. -/
def agenda : List Subtitle := [
  { text := "[Events]", start := .finite 1, stop := .finite 2 }]

def agendaText : String := "1\n00:00:01,000 --> 00:00:02,000\n[Events]\n\n"

omit [Rounding] in
/-- Not every generated document looks like what it is. -/
theorem agenda_looksScript :
    agenda ≠ [] ∧ ofRequest (.str "srt") = .ok .srt ∧
      @Subtitle.generate .binary64 agenda (.str "srt") none [] = .ok agendaText ∧
      detect agendaText = .ok .ass := by
  refine ⟨List.cons_ne_nil _ _, rfl, ?_, rfl⟩
  exact toOption_eq_some.mp (by decide +kernel)

end SubtitleFormat
end Montage
