import Montage.Proofs.Filter.Plain

/-!
# Graphs are read as they were meant

A graph that is written and read again consists of the same filters with the same options, in the
same order, and every option has the value that was given for it: a number, a truth value and a
formula their text, a plain text itself, whatever characters it holds, and a display text itself
after its expansion.  So no text that a caller gives can end its option, open a filter or name a
link.

The proof goes through the readers from the inside: a value is one token among options
(`reads_receivedOf`), an option is part of one token in the graph (`reads_argumentOf`), a filter is
taken off the front of a text (`takeFilter_text`), and then all filters are, by induction over the
filters of a stage and over the stages.
-/

set_option autoImplicit false

namespace Montage

open Montage.Filter

/-! ## What is written and what is meant -/

/-- A named option may have any value but a text for a formula; one without a name is a number. -/
def IsReadableOption : Option String × OptionValue → Prop
  | (none, value) => ∃ n, value = .num n
  | (some key, value) => IsName key ∧ ∀ e, value = .expr e → e.IsFormula

/-- A filter with a name and readable options. -/
structure Filter.IsReadable (filter : Filter) : Prop where
  name : IsName filter.name
  options : ∀ option ∈ filter.options, IsReadableOption option

/-- A graph of readable filters, at least one in a stage, whose labels do not close early. -/
structure FilterGraph.IsReadable (graph : FilterGraph) : Prop where
  nonempty : ∀ stage ∈ graph.stages, stage.filters ≠ []
  filters : ∀ stage ∈ graph.stages, ∀ filter ∈ stage.filters, filter.IsReadable
  labels : ∀ stage ∈ graph.stages, ∀ label ∈ stage.inputs ++ stage.outputs, ']' ∉ label.toList

/-- What is received for a value when it was understood. -/
def OptionValue.Meant : OptionValue → List Char → Prop
  | .display s, received => Reading.expand received = some s.toList
  | .expr e, received => received = e.text
  | .plain s, received => received = s.toList
  | .flag b, received => received = if b then ['1'] else ['0']
  | .num n, received => received = n.text.toList

namespace Reading

/-! ## Values -/

/-- A value among the options of a filter, after the first reader. -/
def argumentOf : OptionValue → List Char
  | .display s => quoteOption (escapeExpansion s.toList)
  | .expr e => e.text
  | .plain s => quoteOption s.toList
  | .flag b => if b then ['1'] else ['0']
  | .num n => n.text.toList

/-- A value after the second reader. -/
def receivedOf : OptionValue → List Char
  | .display s => escapeExpansion s.toList
  | .expr e => e.text
  | .plain s => s.toList
  | .flag b => if b then ['1'] else ['0']
  | .num n => n.text.toList

theorem meant_receivedOf (value : OptionValue) : value.Meant (receivedOf value) := by
  cases value with
  | display s => exact expand_escapeExpansion s.toList
  | _ => rfl

theorem flag_numeral (b : Bool) :
    ∀ c ∈ (if b then ['1'] else ['0']), isNumeralChar c = true := by
  cases b
  · exact List.all_eq_true.mp (by decide)
  · exact List.all_eq_true.mp (by decide)

/-- An expression that is written without quotes is a numeral or a name. -/
theorem numeral_of_readsAlone {e : Expr} (h : e.IsFormula) (ha : OptionValue.readsAlone e = true) :
    ∀ c ∈ e.text, isNumeralChar c = true := by
  cases e with
  | num n =>
    rw [Expr.text]
    exact text_numeral n
  | var name =>
    rw [Expr.IsFormula] at h
    rw [Expr.text]
    exact fun c hc ↦ isNumeralChar_of_name (h.chars c hc)
  | raw text =>
    rw [Expr.IsFormula] at h
    exact h.elim
  | binary | call => cases ha

theorem reads_quotedFormula {s : List Char} (h : ∀ c ∈ s, isFormulaChar c = true) :
    Reads isArgsStop ('\'' :: s ++ ['\'']) s := by
  have hbody : s.flatMap (fun c ↦ if c = '\'' then ['\'', '\\', '\'', '\''] else [c]) = s := by
    have hone : ∀ c ∈ s, (if c = '\'' then ['\'', '\\', '\'', '\''] else [c]) = [c] :=
      fun c hc ↦ if_neg (ne_of_formula (h c hc) rfl)
    rw [List.flatMap_congr hone, List.flatMap_singleton']
  have hscans : Scans isArgsStop _ _ := .quoted rfl rfl s
  rw [hbody] at hscans
  refine ⟨⟨_, hscans, ?_, filterMap_quotedTaken s⟩, ?_⟩
  · intro t ht
    rw [List.getLast?_concat, Option.mem_some] at ht
    exact ht ▸ rfl
  · rintro c ⟨⟩
    rfl

/-- A value is part of one token in the graph. -/
theorem reads_argumentOf {value : OptionValue} (h : ∀ e, value = .expr e → e.IsFormula) :
    Reads isArgsStop value.text (argumentOf value) := by
  cases value with
  | display s => exact reads_escapeGraph (hasEdgeSpace_quoteOption _)
  | expr e =>
    rw [OptionValue.text]
    split
    · rename_i halone
      exact reads_numeral (numeral_of_readsAlone (h e rfl) halone)
    · exact reads_quotedFormula (text_formula e (h e rfl))
  | plain s => exact reads_escapeGraph (hasEdgeSpace_quoteOption _)
  | flag b => exact reads_numeral (flag_numeral b)
  | num n => exact reads_numeral (text_numeral n)

/-- A value is one token among options. -/
theorem reads_receivedOf {value : OptionValue} (h : ∀ e, value = .expr e → e.IsFormula) :
    Reads isColon (argumentOf value) (receivedOf value) := by
  cases value with
  | display s => exact reads_quoteOption _
  | expr e => exact reads_formula (text_formula e (h e rfl))
  | plain s => exact reads_quoteOption _
  | flag b => exact reads_formula fun c hc ↦ isFormulaChar_of_numeral (flag_numeral b c hc)
  | num n => exact reads_formula fun c hc ↦ isFormulaChar_of_numeral (text_numeral n c hc)

/-! ## Options -/

/-- An option after the first reader. -/
def optionArgument : Option String × OptionValue → List Char
  | (none, value) => argumentOf value
  | (some key, value) => key.toList ++ '=' :: argumentOf value

/-- An option after the second reader. -/
def optionReceived (option : Option String × OptionValue) : Option (List Char) × List Char :=
  (option.1.map String.toList, receivedOf option.2)

theorem formula_of_readable {option : Option String × OptionValue} (h : IsReadableOption option) :
    ∀ e, option.2 = .expr e → e.IsFormula := by
  obtain ⟨key, value⟩ := option
  cases key with
  | none =>
    obtain ⟨n, rfl⟩ := h
    rintro e ⟨⟩
  | some key => exact h.2

/-- An option is part of one token in the graph. -/
theorem reads_optionArgument {option : Option String × OptionValue} (h : IsReadableOption option) :
    Reads isArgsStop (optionText option) (optionArgument option) := by
  have hvalue := reads_argumentOf (formula_of_readable h)
  obtain ⟨key, value⟩ := option
  cases key with
  | none => exact hvalue
  | some key =>
    have hkey := reads_numeral fun c hc ↦ isNumeralChar_of_name (h.1.chars c hc)
    have hmark : Reads isArgsStop ['='] ['='] := .plain (by
      intro c hc
      rw [List.mem_singleton.mp hc]
      exact ⟨⟨rfl, by decide, by decide⟩, rfl⟩)
    exact hkey.append (hmark.append hvalue)

theorem joinWith_cons (sep first : List Char) (more : List (List Char)) :
    joinWith sep (first :: more) = first ++ if more = [] then [] else sep ++ joinWith sep more := by
  cases more with
  | nil => simp [joinWith]
  | cons second more => simp [joinWith]

theorem optionArgument_ne_nil {option : Option String × OptionValue}
    (h : IsReadableOption option) : optionArgument option ≠ [] := by
  obtain ⟨key, value⟩ := option
  cases key with
  | none =>
    obtain ⟨n, rfl⟩ := h
    exact text_ne_nil n
  | some key => simp [optionArgument]

/-- The first option is taken off the front. -/
theorem takeOption {option : Option String × OptionValue} {rest : List Char}
    (h : IsReadableOption option) (hrest : Stops isColon rest) :
    options (optionArgument option ++ rest) = optionReceived option :: options (rest.drop 1) := by
  have htoken := token_of_reads (fun c hc ↦ by simp_all [isColon, isEdgeSpace])
    (reads_receivedOf (formula_of_readable h)) hrest
  have hkey : takeKey (optionArgument option ++ rest)
      = (option.1.map String.toList, argumentOf option.2 ++ rest) := by
    obtain ⟨key, value⟩ := option
    cases key with
    | none =>
      obtain ⟨n, rfl⟩ := h
      exact takeKey_numeral (text_numeral n) hrest
    | some key =>
      rw [optionArgument, List.append_assoc]
      exact takeKey_name h.1.nonempty h.1.chars _
  rw [options, if_neg (by simp [optionArgument_ne_nil h]), hkey]
  dsimp only
  rw [htoken]
  rfl

/-- **The options of a filter are received as they were meant.** -/
theorem options_join {opts : List (Option String × OptionValue)}
    (h : ∀ option ∈ opts, IsReadableOption option) :
    options (joinWith [':'] (opts.map optionArgument)) = opts.map optionReceived := by
  induction opts with
  | nil =>
    rw [List.map_nil, joinWith, options]
    rfl
  | cons option more ih =>
    rw [List.forall_mem_cons] at h
    rw [List.map_cons, List.map_cons, joinWith_cons]
    generalize hrest : (if more.map optionArgument = [] then []
      else [':'] ++ joinWith [':'] (more.map optionArgument)) = rest
    have hstops : Stops isColon rest := by
      rw [← hrest]
      split
      · simp [Stops]
      · rintro c ⟨⟩
        rfl
    have hnext : rest.drop 1 = joinWith [':'] (more.map optionArgument) := by
      rw [← hrest]
      split
      · rename_i hnil
        rw [hnil]
        rfl
      · rfl
    rw [takeOption h.1 hstops, hnext, ih h.2]

/-! ## Filters -/

/-- Marks that may stand behind a filter. -/
def isGap (c : Char) : Bool := c == '[' || c == ',' || c == ';'

theorem Stops.mono {p q : Char → Bool} {rest : List Char} (h : Stops p rest)
    (hpq : ∀ c, p c = true → q c = true) : Stops q rest := fun c hc ↦ hpq c (h c hc)

/-- The arguments of a filter after the first reader. -/
def argumentsOf (filter : Filter) : Option (List Char) :=
  if filter.options.isEmpty then none
  else some (joinWith [':'] (filter.options.map optionArgument))

theorem reads_arguments {filter : Filter} (h : filter.IsReadable) :
    Reads isArgsStop (joinWith [':'] (filter.options.map optionText))
      (joinWith [':'] (filter.options.map optionArgument)) := by
  have hmark : Reads isArgsStop [':'] [':'] := .plain (by
    intro c hc
    rw [List.mem_singleton.mp hc]
    exact ⟨⟨rfl, by decide, by decide⟩, rfl⟩)
  refine hmark.joinWith ?_
  rw [List.forall₂_map_left_iff, List.forall₂_map_right_iff, List.forall₂_same]
  exact fun option hoption ↦ reads_optionArgument (h.options option hoption)

theorem exists_text_eq_cons {filter : Filter} (h : filter.IsReadable) :
    ∃ c later, filter.text = c :: later ∧ isNameChar c = true := by
  obtain ⟨c, later, hname⟩ := List.exists_cons_of_ne_nil h.name.nonempty
  have hc : isNameChar c = true := h.name.chars c (hname ▸ List.mem_cons_self)
  rw [Filter.text]
  split
  · exact ⟨c, later, hname, hc⟩
  · rw [hname]
    exact ⟨c, _, rfl, hc⟩

theorem skipLabels_of_head {between : Char → Bool} {s : List Char}
    (h : ∀ c ∈ s.head?, c ≠ '[' ∧ between c = false) : skipLabels between false s = some s := by
  cases s with
  | nil => rfl
  | cons c rest =>
    obtain ⟨hopen, hbetween⟩ := h c rfl
    rw [skipLabels, if_neg hopen, if_neg (by simp [hbetween])]

theorem takeFilter_of {s start name later rest : List Char} {args : Option (List Char)}
    (hstart : skipLabels (fun _ ↦ false) false s = some start)
    (hname : token isNameStop start = (name, later)) (hargs : takeArgs later = (args, rest)) :
    takeFilter s = (skipLabels isSeparator false rest).map fun left ↦ ((name, args), left) := by
  rw [takeFilter, hstart]
  show (skipLabels isSeparator false (takeArgs (token isNameStop start).2).2).bind (fun left ↦
    some (((token isNameStop start).1, (takeArgs (token isNameStop start).2).1), left)) = _
  rw [hname, hargs]
  cases skipLabels isSeparator false rest <;> rfl

theorem not_space_of_nameStop {c : Char} (h : isNameStop c = true) : isEdgeSpace c = false := by
  simp only [isNameStop, Bool.or_eq_true, beq_iff_eq] at h
  rcases h with ((rfl | rfl) | rfl) | rfl <;> rfl

theorem not_space_of_argsStop {c : Char} (h : isArgsStop c = true) : isEdgeSpace c = false := by
  simp only [isArgsStop, Bool.or_eq_true, beq_iff_eq] at h
  rcases h with ((rfl | rfl) | rfl) | rfl <;> rfl

theorem nameStop_of_gap {c : Char} (h : isGap c = true) : isNameStop c = true := by
  simp only [isGap, Bool.or_eq_true, beq_iff_eq] at h
  rcases h with (rfl | rfl) | rfl <;> rfl

theorem argsStop_of_gap {c : Char} (h : isGap c = true) : isArgsStop c = true := by
  simp only [isGap, Bool.or_eq_true, beq_iff_eq] at h
  rcases h with (rfl | rfl) | rfl <;> rfl

theorem takeArgs_of_gap {rest : List Char} (h : Stops isGap rest) :
    takeArgs rest = (none, rest) := by
  rw [takeArgs.eq_def]
  split
  · exact absurd (h '=' rfl) (by decide)
  · rfl

/-- **A filter is taken off the front of a text**, with the labels and marks behind it. -/
theorem takeFilter_text {filter : Filter} {rest : List Char} (h : filter.IsReadable)
    (hrest : Stops isGap rest) :
    takeFilter (filter.text ++ rest) = (skipLabels isSeparator false rest).map fun left ↦
      ((filter.name.toList, argumentsOf filter), left) := by
  have hstart : skipLabels (fun _ ↦ false) false (filter.text ++ rest)
      = some (filter.text ++ rest) := by
    obtain ⟨c, later, htext, hc⟩ := exists_text_eq_cons h
    refine skipLabels_of_head fun d hd ↦ ⟨?_, rfl⟩
    rw [htext] at hd
    obtain rfl : c = d := Option.some.inj hd
    exact ne_of_numeral (isNumeralChar_of_name hc) rfl
  have hname := reads_name h.name.chars
  rw [Filter.text] at hstart ⊢
  rw [argumentsOf]
  split at hstart
  · rename_i hoptions
    have htoken := token_of_reads (fun _ ↦ not_space_of_nameStop) hname
      (hrest.mono fun _ ↦ nameStop_of_gap)
    rw [if_pos hoptions, if_pos hoptions]
    exact takeFilter_of hstart htoken (takeArgs_of_gap hrest)
  · rename_i hoptions
    rw [List.append_assoc, List.cons_append] at hstart
    have hmark : Stops isNameStop
        ('=' :: (joinWith [':'] (filter.options.map optionText) ++ rest)) := by
      rintro c ⟨⟩
      rfl
    have htoken := token_of_reads (fun _ ↦ not_space_of_nameStop) hname hmark
    have hargs := token_of_reads (fun _ ↦ not_space_of_argsStop) (reads_arguments h)
      (hrest.mono fun _ ↦ argsStop_of_gap)
    rw [if_neg hoptions, if_neg hoptions, List.append_assoc, List.cons_append]
    exact takeFilter_of hstart htoken (by rw [takeArgs, hargs])

/-! ## Graphs -/

/-- Labels are skipped wherever marks are. -/
theorem skipLabels_labels (between : Char → Bool) {names : List String}
    (h : ∀ name ∈ names, ']' ∉ name.toList) (rest : List Char) :
    skipLabels between false (Stage.labels names ++ rest) = skipLabels between false rest := by
  have hopen : ∀ (name rest : List Char), ']' ∉ name →
      skipLabels between true (name ++ ']' :: rest) = skipLabels between false rest := by
    intro name rest hname
    induction name with
    | nil => rfl
    | cons c later ih =>
      rw [List.mem_cons, not_or] at hname
      rw [List.cons_append, skipLabels, (bne_iff_ne (b := ']')).mpr (Ne.symm hname.1), ih hname.2]
  induction names with
  | nil => rfl
  | cons name more ih =>
    rw [List.forall_mem_cons] at h
    have hshape : Stage.labels (name :: more) ++ rest
        = '[' :: (name.toList ++ ']' :: (Stage.labels more ++ rest)) := by simp [Stage.labels]
    rw [hshape, skipLabels, if_pos rfl, hopen _ _ h.1]
    exact ih h.2

theorem filters_eq_bind {s : List Char} (hs : s ≠ []) :
    filters s = (takeFilter s).bind fun taken ↦ (filters taken.2).map (taken.1 :: ·) := by
  rw [filters, if_neg hs]
  split
  · rename_i hnone
    rw [hnone]
    rfl
  · rename_i read left hsome
    rw [hsome]
    rfl

/-- A filter as the first reader gives it. -/
def filterRead (filter : Filter) : List Char × Option (List Char) :=
  (filter.name.toList, argumentsOf filter)

theorem filters_text {filter : Filter} {after rest : List Char} (h : filter.IsReadable)
    (hafter : Stops isGap after) (hskip : skipLabels isSeparator false after = some rest) :
    filters (filter.text ++ after) = (filters rest).map (filterRead filter :: ·) := by
  obtain ⟨c, later, htext, -⟩ := exists_text_eq_cons h
  rw [filters_eq_bind (by simp [htext]), takeFilter_text h hafter, hskip, Option.map_some,
    Option.bind_some, filterRead]

/-- The text starts with a name. -/
def Begins (s : List Char) : Prop := ∃ c later, s = c :: later ∧ isNameChar c = true

theorem ne_nil_of_begins {s : List Char} (h : Begins s) : s ≠ [] := by
  obtain ⟨c, later, rfl, -⟩ := h
  exact List.cons_ne_nil c later

theorem skipLabels_of_begins {s : List Char} (h : Begins s) :
    skipLabels isSeparator false s = some s := by
  obtain ⟨c, later, rfl, hc⟩ := h
  refine skipLabels_of_head ?_
  rintro d ⟨⟩
  have hd := isNumeralChar_of_name hc
  exact ⟨ne_of_numeral hd rfl, by
    simp [isSeparator, ne_of_numeral hd (d := ',') rfl, ne_of_numeral hd (d := ';') rfl]⟩

theorem begins_chain {chain : List Filter} (hne : chain ≠ [])
    (h : ∀ filter ∈ chain, filter.IsReadable) (after : List Char) :
    Begins (joinWith [','] (chain.map Filter.text) ++ after) := by
  obtain ⟨filter, more, rfl⟩ := List.exists_cons_of_ne_nil hne
  obtain ⟨c, later, htext, hc⟩ := exists_text_eq_cons (h filter List.mem_cons_self)
  rw [List.map_cons, joinWith_cons, htext]
  exact ⟨c, _, rfl, hc⟩

/-- **The filters of a stage are taken off the front of a text**, one after the other. -/
theorem filters_chain {chain : List Filter} {after rest : List Char} (hne : chain ≠ [])
    (h : ∀ filter ∈ chain, filter.IsReadable) (hafter : Stops isGap after)
    (hskip : skipLabels isSeparator false after = some rest) :
    filters (joinWith [','] (chain.map Filter.text) ++ after)
      = (filters rest).map (chain.map filterRead ++ ·) := by
  induction chain with
  | nil => exact absurd rfl hne
  | cons filter more ih =>
    rw [List.forall_mem_cons] at h
    rw [List.map_cons, joinWith_cons, List.append_assoc]
    by_cases hmore : more = []
    · subst hmore
      exact filters_text h.1 hafter hskip
    · have hnext : skipLabels isSeparator false
          (',' :: (joinWith [','] (more.map Filter.text) ++ after))
          = some (joinWith [','] (more.map Filter.text) ++ after) :=
        skipLabels_of_begins (begins_chain hmore h.2 after)
      rw [if_neg (by simpa using hmore), List.append_assoc, List.singleton_append,
        filters_text h.1 (by rintro c ⟨⟩; rfl) hnext, ih hmore h.2, Option.map_map]
      rfl

theorem stops_labels (names : List String) {after : List Char} (h : Stops isGap after) :
    Stops isGap (Stage.labels names ++ after) := by
  cases names with
  | nil => exact h
  | cons name more =>
    rintro c ⟨⟩
    rfl

theorem filters_labels {names : List String} {s : List Char}
    (h : ∀ name ∈ names, ']' ∉ name.toList) (hs : s ≠ []) :
    filters (Stage.labels names ++ s) = filters s := by
  have htake : takeFilter (Stage.labels names ++ s) = takeFilter s := by
    rw [takeFilter, takeFilter, skipLabels_labels _ h]
  rw [filters_eq_bind (by simp [hs]), filters_eq_bind hs, htake]

/-- **The filters of a graph are taken off the front of its text**, stage by stage. -/
theorem filters_stages {stages : List Stage} (hne : ∀ stage ∈ stages, stage.filters ≠ [])
    (h : ∀ stage ∈ stages, ∀ filter ∈ stage.filters, filter.IsReadable)
    (hlabels : ∀ stage ∈ stages, ∀ label ∈ stage.inputs ++ stage.outputs, ']' ∉ label.toList) :
    filters (joinWith [';'] (stages.map Stage.text))
      = some ((stages.flatMap Stage.filters).map filterRead) := by
  induction stages with
  | nil =>
    rw [List.map_nil, joinWith, filters]
    rfl
  | cons stage more ih =>
    rw [List.forall_mem_cons] at hne h hlabels
    have ih := ih hne.2 h.2 hlabels.2
    obtain ⟨hinputs, houtputs⟩ := List.forall_mem_append.mp hlabels.1
    have hbegins := begins_chain hne.1 h.1
    rw [List.map_cons, joinWith_cons, Stage.text, List.append_assoc, List.append_assoc,
      filters_labels hinputs (ne_nil_of_begins (hbegins _)), List.flatMap_cons, List.map_append]
    cases more with
    | nil =>
      have hskip : skipLabels isSeparator false (Stage.labels stage.outputs ++ []) = some [] :=
        skipLabels_labels _ houtputs []
      have hstops : Stops isGap (Stage.labels stage.outputs ++ []) :=
        stops_labels _ (by simp [Stops])
      rw [List.map_nil, if_pos rfl, filters_chain hne.1 h.1 hstops hskip, filters]
      rfl
    | cons next more =>
      -- the labels of the next stage are skipped together with those of this one
      obtain ⟨body, hnext, hbody⟩ : ∃ body, joinWith [';'] ((next :: more).map Stage.text)
          = Stage.labels next.inputs ++ body ∧ Begins body := by
        rw [List.map_cons, joinWith_cons, Stage.text, List.append_assoc, List.append_assoc]
        have hnext := List.mem_cons_self (l := more) (a := next)
        exact ⟨_, rfl, begins_chain (hne.2 next hnext) (h.2 next hnext) _⟩
      have hopen := (List.forall_mem_append.mp (hlabels.2 next List.mem_cons_self)).1
      have hskip : skipLabels isSeparator false
          (Stage.labels stage.outputs ++ ';' :: (Stage.labels next.inputs ++ body))
            = some body := by
        rw [skipLabels_labels _ houtputs]
        show skipLabels isSeparator false (Stage.labels next.inputs ++ body) = some body
        rw [skipLabels_labels _ hopen, skipLabels_of_begins hbody]
      rw [hnext, filters_labels hopen (ne_nil_of_begins hbody)] at ih
      rw [if_neg (by simp), List.singleton_append, hnext,
        filters_chain hne.1 h.1 (stops_labels _ (by rintro c ⟨⟩; rfl)) hskip, ih]
      rfl

/-- A filter as it is received. -/
def filterReceived (filter : Filter) : List Char × List (Option (List Char) × List Char) :=
  (filter.name.toList, filter.options.map optionReceived)

theorem options_argumentsOf {filter : Filter} (h : filter.IsReadable) :
    options ((argumentsOf filter).getD []) = filter.options.map optionReceived := by
  rw [argumentsOf]
  split
  · rename_i hempty
    rw [List.isEmpty_iff.mp hempty, Option.getD_none, options]
    rfl
  · rw [Option.getD_some, options_join h.options]

theorem graph_text {g : FilterGraph} (h : g.IsReadable) :
    graph g.text = some ((g.stages.flatMap Stage.filters).map filterReceived) := by
  have hfilters : ∀ filter ∈ g.stages.flatMap Stage.filters, filter.IsReadable := by
    intro filter hfilter
    obtain ⟨stage, hstage, hfilter⟩ := List.mem_flatMap.mp hfilter
    exact h.filters stage hstage filter hfilter
  rw [FilterGraph.text, graph, filters_stages h.nonempty h.filters h.labels, Option.map_some,
    List.map_map]
  congr 1
  refine List.map_congr_left fun filter hfilter ↦ ?_
  exact congrArg (Prod.mk _) (options_argumentsOf (hfilters filter hfilter))

end Reading

/-- **A graph is read as it was meant**, whatever texts, fonts, paths and colors are in it. -/
theorem FilterGraph.read_render {graph : FilterGraph} (h : graph.IsReadable) :
    ∃ read, Reading.graph graph.render.toList = some read
      ∧ List.Forall₂ (fun filter received ↦ received.1 = filter.name.toList
        ∧ List.Forall₂ (fun option got ↦ got.1 = option.1.map String.toList
          ∧ option.2.Meant got.2) filter.options received.2)
        (graph.stages.flatMap Stage.filters) read := by
  refine ⟨(graph.stages.flatMap Stage.filters).map Reading.filterReceived, ?_, ?_⟩
  · rw [FilterGraph.render, String.toList_ofList]
    exact Reading.graph_text h
  · rw [List.forall₂_map_right_iff, List.forall₂_same]
    refine fun filter _ ↦ ⟨rfl, ?_⟩
    rw [Reading.filterReceived, List.forall₂_map_right_iff, List.forall₂_same]
    exact fun option _ ↦ ⟨rfl, Reading.meant_receivedOf option.2⟩

/-- A caption that tries to end its option, behind a path with a colon and a space at its end. -/
def hostileCaption : FilterGraph where
  stages := [
    ⟨["0:v"], [.named "drawtext" [("fontfile", .plain "C:\\a "), ("text", .display "50%':x=0,[a]")],
      .withArgs "scale" [.num (.whole (-1))]], ["l0"]⟩,
    ⟨["base", "l0"], [.named "overlay" [("x", .expr (.binary .minus (.var "W") (.num 1)))]],
      ["vout"]⟩]

theorem hostileCaption_read : hostileCaption.IsReadable
    ∧ ∃ read, Reading.graph hostileCaption.render.toList = some read ∧ read.length = 3 := by
  have name : ∀ s : String, s.toList ≠ [] → s.toList.all isNameChar = true → IsName s :=
    fun s hne hall ↦ ⟨hne, List.all_eq_true.mp hall⟩
  have h : hostileCaption.IsReadable := by
    refine ⟨by simp [hostileCaption], ?_, by decide⟩
    simp only [hostileCaption, List.forall_mem_cons, List.not_mem_nil, false_imp_iff,
      implies_true, and_true]
    refine ⟨⟨⟨name _ (by decide) (by decide), ?_⟩, ⟨name _ (by decide) (by decide), ?_⟩⟩,
      ⟨name _ (by decide) (by decide), ?_⟩⟩
    · simp only [named, List.map_cons, List.map_nil, List.forall_mem_cons, List.not_mem_nil,
        false_imp_iff, implies_true, and_true]
      exact ⟨⟨name _ (by decide) (by decide), by simp⟩, name _ (by decide) (by decide), by simp⟩
    · simp [withArgs, IsReadableOption]
    · simp only [named, List.map_cons, List.map_nil, List.forall_mem_cons, List.not_mem_nil,
        false_imp_iff, implies_true, and_true]
      refine ⟨name _ (by decide) (by decide), ?_⟩
      rintro e ⟨⟩
      simpa [Expr.IsFormula] using name "W" (by decide) (by decide)
  obtain ⟨read, hread, hmeant⟩ := FilterGraph.read_render h
  exact ⟨h, read, hread, hmeant.length_eq.symm⟩

end Montage
