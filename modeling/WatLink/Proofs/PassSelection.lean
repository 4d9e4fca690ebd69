import Mathlib
import WatLink.Link.Linker

/-!
# Selections of passes

A selection names passes in a list or in a comma-separated text.  What it selects
depends on the names alone: not on their order, on repetitions, on blanks around
them or on blank entries.  Both the accepted selections and the first refused entry
are described here without the code that trims and reads the entries.
-/

namespace WatLink

namespace Text

/-! ## Trimmed texts -/

/-- Whether characters are all white space. -/
def Blanks (characters : List Char) : Prop :=
  ∀ character ∈ characters, isBlank character = true

instance (characters : List Char) : Decidable (Blanks characters) :=
  decidable_of_iff (characters.all isBlank = true) List.all_eq_true

/-- Whether a text is another one with white space around it, on either side or
on none. -/
def Padded (inner outer : String) : Prop :=
  ∃ front behind, Blanks front ∧ Blanks behind ∧
    outer.toList = front ++ (inner.toList ++ behind)

/-- Whether a text is what remains of another one without its surrounding white
space. -/
structure Trimmed (core text : String) : Prop where
  padded : Padded core text
  first : ∀ character ∈ core.toList.head?, isBlank character = false
  last : ∀ character ∈ core.toList.getLast?, isBlank character = false

theorem Padded.refl (text : String) : Padded text text :=
  ⟨[], [], by simp [Blanks], by simp [Blanks], by simp⟩

theorem stripList_padded {front behind : List Char} (blankFront : Blanks front)
    (blankBehind : Blanks behind) (inner : List Char) :
    stripList (front ++ (inner ++ behind)) = stripList inner := by
  unfold stripList
  rw [List.dropWhile_append_of_pos blankFront, List.dropWhile_append]
  cases isBlankInner : (inner.dropWhile isBlank).isEmpty with
  -- if the inner text is blank, the blanks behind it go with it from the front
  | true =>
      rw [if_pos rfl, List.isEmpty_iff.mp isBlankInner, List.dropWhile_eq_nil_iff.mpr blankBehind]
  | false =>
      have blankReverse : ∀ character ∈ behind.reverse, isBlank character = true := by
        simpa [Blanks] using blankBehind
      rw [if_neg Bool.false_ne_true, List.reverse_append,
        List.dropWhile_append_of_pos blankReverse]

theorem strip_of_padded {inner outer : String} (padded : Padded inner outer) :
    strip outer = strip inner := by
  obtain ⟨front, behind, blankFront, blankBehind, isOuter⟩ := padded
  rw [strip, isOuter, stripList_padded blankFront blankBehind, strip]

theorem not_isBlank_of_head? {characters : List Char} {character : Char}
    (isFirst : character ∈ (characters.dropWhile isBlank).head?) : isBlank character = false := by
  obtain ⟨rest, isRest⟩ := List.head?_eq_some_iff.mp isFirst
  have first := List.head_dropWhile_not isBlank (l := characters) (by rw [isRest]; simp)
  simpa [isRest] using first

theorem dropWhile_of_head? {characters : List Char}
    (first : ∀ character ∈ characters.head?, isBlank character = false) :
    characters.dropWhile isBlank = characters := by
  cases characters with
  | nil => rfl
  | cons character rest => exact List.dropWhile_cons_of_neg (by simp [first character rfl])

theorem trimmed_strip (text : String) : Trimmed (strip text) text where
  padded := by
    refine ⟨text.toList.takeWhile isBlank, (text.toList.dropWhile isBlank).rtakeWhile isBlank,
      fun _ => List.mem_takeWhile_imp, fun _ => List.mem_rtakeWhile_imp, ?_⟩
    calc
      text.toList = text.toList.takeWhile isBlank ++ text.toList.dropWhile isBlank :=
        List.takeWhile_append_dropWhile.symm
      _ = text.toList.takeWhile isBlank ++ ((text.toList.dropWhile isBlank).rdropWhile isBlank ++
            (text.toList.dropWhile isBlank).rtakeWhile isBlank) := by
        rw [List.rdropWhile_append_rtakeWhile]
      _ = _ := by rw [strip, String.toList_ofList]; rfl
  first := by
    intro character isFirst
    rw [strip, String.toList_ofList] at isFirst
    obtain ⟨rest, isWhole⟩ := List.rdropWhile_prefix isBlank (text.toList.dropWhile isBlank)
    have isFirst' : character ∈ (text.toList.dropWhile isBlank).head? := by
      rw [← isWhole, List.head?_append]
      exact Option.or_eq_some_iff.mpr (.inl isFirst)
    exact not_isBlank_of_head? isFirst'
  last := by
    intro character isLast
    rw [strip, String.toList_ofList, stripList, List.getLast?_reverse] at isLast
    exact not_isBlank_of_head? isLast

theorem strip_of_trimmed {core text : String} (trimmed : Trimmed core text) :
    strip text = core := by
  have front := dropWhile_of_head? trimmed.first
  have back : core.toList.reverse.dropWhile isBlank = core.toList.reverse :=
    dropWhile_of_head? (List.head?_reverse ▸ trimmed.last)
  rw [strip_of_padded trimmed.padded, strip, stripList, front, back, List.reverse_reverse,
    String.ofList_toList]

theorem trimmed_iff {core text : String} : Trimmed core text ↔ strip text = core := by
  constructor
  · exact strip_of_trimmed
  · rintro rfl
    exact trimmed_strip text

theorem Trimmed.unique {core core' text : String} (trimmed : Trimmed core text)
    (trimmed' : Trimmed core' text) : core = core' :=
  (strip_of_trimmed trimmed).symm.trans (strip_of_trimmed trimmed')

theorem trimmed_of_blanks {text : String} (blanks : Blanks text.toList) : Trimmed "" text where
  padded := ⟨text.toList, [], blanks, by simp [Blanks], by simp⟩
  first := by simp
  last := by simp

theorem trimmed_iff_of_padded {core inner outer : String} (padded : Padded inner outer) :
    Trimmed core outer ↔ Trimmed core inner := by
  rw [trimmed_iff, trimmed_iff, strip_of_padded padded]

/-! ## Joined texts -/

theorem splitList_eq_splitOn (separator : Char) (characters : List Char) :
    splitList separator characters = characters.splitOn separator := by
  induction characters with
  | nil => rfl
  | cons character rest ih =>
      obtain ⟨part, parts, isSplit⟩ :=
        List.exists_cons_of_ne_nil (List.splitOn_ne_nil separator rest)
      have next : (character :: rest).splitOn separator =
          if character == separator then [] :: rest.splitOn separator
          else (rest.splitOn separator).modifyHead (character :: ·) :=
        List.splitOnP_cons_eq_if_modifyHead character rest
      rw [splitList, ih, next, isSplit]
      simp only [beq_iff_eq, List.modifyHead_cons]

theorem split_intercalate {names : List String} (nonempty : names ≠ [])
    (noComma : ∀ name ∈ names, ',' ∉ name.toList) :
    split ',' (String.intercalate "," names) = names := by
  have parts : ([','].intercalate (names.map String.toList)).splitOn ',' =
      names.map String.toList := by
    refine List.splitOn_intercalate ',' ?_ (by simpa using nonempty)
    simpa using noComma
  rw [split, splitList_eq_splitOn, String.toList_intercalate]
  change (([','].intercalate (names.map String.toList)).splitOn ',').map String.ofList = names
  rw [parts, List.map_map]
  simp

end Text

namespace Pass

open Text (Trimmed Padded)

/-! ## Entries -/

/-- Whether an entry of a selection is in order: it is blank, or it is the name of a
pass with blanks around it. -/
def Accepted (entry : String) : Prop :=
  Trimmed "" entry ∨ ∃ pass : Pass, Trimmed pass.name entry

/-- Whether a list of entries holds a name, with whatever blanks around it. -/
def Mentions (names : List String) (name : String) : Prop :=
  ∃ entry ∈ names, Trimmed name entry

theorem mentions_cons {entry name : String} {rest : List String} :
    Mentions (entry :: rest) name ↔ Trimmed name entry ∨ Mentions rest name :=
  List.exists_mem_cons_iff _ _ _

theorem ofName?_name (pass : Pass) : ofName? pass.name = some pass := by
  cases pass <;> rfl

theorem name_of_ofName? {name : String} {pass : Pass} (found : ofName? name = some pass) :
    pass.name = name :=
  eq_of_beq (List.find?_some (p := fun pass : Pass => pass.name == name) found)

theorem name_ne_empty (pass : Pass) : pass.name ≠ "" := by
  cases pass <;> decide

theorem name_injective {pass pass' : Pass} (same : pass.name = pass'.name) : pass = pass' := by
  have found := ofName?_name pass
  rw [same, ofName?_name] at found
  exact (Option.some.inj found).symm

theorem strip_name (pass : Pass) : Text.strip pass.name = pass.name := by
  cases pass <;> rfl

theorem accepted_iff {entry : String} :
    Accepted entry ↔ Text.strip entry = "" ∨ ∃ pass : Pass, Text.strip entry = pass.name := by
  simp only [Accepted, Text.trimmed_iff]

theorem requested_blank {entry : String} (blank : Trimmed "" entry) (rest : List String) :
    requested (entry :: rest) = requested rest := by
  rw [requested, Text.strip_of_trimmed blank]
  rfl

theorem requested_named {entry : String} {pass : Pass} (named : Trimmed pass.name entry)
    (rest : List String) : requested (entry :: rest) = (requested rest).map (pass :: ·) := by
  rw [requested, Text.strip_of_trimmed named]
  simp [name_ne_empty, ofName?_name]

theorem requested_refused {entry : String} (refused : ¬ Accepted entry) (rest : List String) :
    requested (entry :: rest) = .error (Text.strip entry) := by
  rw [accepted_iff, not_or] at refused
  have unknown : ofName? (Text.strip entry) = none := by
    refine Option.eq_none_iff_forall_ne_some.mpr fun pass found => ?_
    exact refused.2 ⟨pass, (name_of_ofName? found).symm⟩
  rw [requested]
  simp [refused.1, unknown]

/-! ## Lists of entries -/

/-- A selection with an entry out of order has a first one. -/
theorem exists_first_refused {names : List String} (refused : ¬ ∀ entry ∈ names, Accepted entry) :
    ∃ before entry behind, names = before ++ entry :: behind ∧
      (∀ earlier ∈ before, Accepted earlier) ∧ ¬ Accepted entry := by
  induction names with
  | nil => simp at refused
  | cons entry rest ih =>
      by_cases accepted : Accepted entry
      · rw [List.forall_mem_cons, not_and] at refused
        obtain ⟨before, other, behind, rfl, acceptedBefore, refusedOther⟩ := ih (refused accepted)
        exact ⟨entry :: before, other, behind, rfl,
          List.forall_mem_cons.mpr ⟨accepted, acceptedBefore⟩, refusedOther⟩
      · exact ⟨[], entry, rest, rfl, by simp, accepted⟩

theorem requested_of_accepted {names : List String} (accepted : ∀ entry ∈ names, Accepted entry) :
    ∃ passes, requested names = .ok passes ∧ ∀ pass, pass ∈ passes ↔ Mentions names pass.name := by
  induction names with
  | nil => exact ⟨[], rfl, by simp [Mentions]⟩
  | cons entry rest ih =>
      obtain ⟨acceptedEntry, acceptedRest⟩ := List.forall_mem_cons.mp accepted
      obtain ⟨passes, isRequest, mentioned⟩ := ih acceptedRest
      rcases acceptedEntry with blank | ⟨first, named⟩
      · refine ⟨passes, (requested_blank blank rest).trans isRequest, fun pass => ?_⟩
        have notEntry : ¬ Trimmed pass.name entry :=
          fun named => name_ne_empty pass (named.unique blank)
        rw [mentions_cons, mentioned, or_iff_right notEntry]
      · refine ⟨first :: passes, by rw [requested_named named, isRequest]; rfl, fun pass => ?_⟩
        have isFirst : pass = first ↔ Trimmed pass.name entry := by
          constructor
          · rintro rfl
            exact named
          · exact fun named' => name_injective (named'.unique named)
        rw [mentions_cons, List.mem_cons, mentioned, isFirst]

theorem requested_of_refused {before behind : List String} {entry : String}
    (accepted : ∀ earlier ∈ before, Accepted earlier) (refused : ¬ Accepted entry) :
    requested (before ++ entry :: behind) = .error (Text.strip entry) := by
  induction before with
  | nil => exact requested_refused refused behind
  | cons first rest ih =>
      obtain ⟨acceptedFirst, acceptedRest⟩ := List.forall_mem_cons.mp accepted
      rcases acceptedFirst with blank | ⟨pass, named⟩
      · exact (requested_blank blank _).trans (ih acceptedRest)
      · rw [List.cons_append, requested_named named, ih acceptedRest]
        rfl

/-- A selection succeeds if all its entries are in order, and gives the passes that
they mention. -/
theorem select_of_accepted {names : List String} (accepted : ∀ entry ∈ names, Accepted entry) :
    ∃ passes, select names = .ok passes ∧ passes.Sublist all ∧
      ∀ pass, pass ∈ passes ↔ Mentions names pass.name := by
  obtain ⟨passes, isRequest, mentioned⟩ := requested_of_accepted accepted
  refine ⟨all.filter passes.contains, by rw [select, isRequest]; rfl, List.filter_sublist, ?_⟩
  intro pass
  have inAll : pass ∈ all := by cases pass <;> decide
  rw [List.mem_filter, and_iff_right inAll, List.contains_iff_mem, mentioned]

theorem select_of_refused {before behind : List String} {entry : String}
    (accepted : ∀ earlier ∈ before, Accepted earlier) (refused : ¬ Accepted entry) :
    select (before ++ entry :: behind) = .error (Text.strip entry) := by
  rw [select, requested_of_refused accepted refused]
  rfl

theorem accepted_of_select {names : List String} {passes : List Pass}
    (selects : select names = .ok passes) : ∀ entry ∈ names, Accepted entry := by
  by_contra refused
  obtain ⟨before, entry, behind, rfl, accepted, refusedEntry⟩ := exists_first_refused refused
  rw [select_of_refused accepted refusedEntry] at selects
  cases selects

theorem select_eq_ok_iff {names : List String} {passes : List Pass} :
    select names = .ok passes ↔ (∀ entry ∈ names, Accepted entry) ∧ passes.Sublist all ∧
      ∀ pass, pass ∈ passes ↔ Mentions names pass.name := by
  constructor
  · intro selects
    have accepted := accepted_of_select selects
    obtain ⟨passes', selects', inOrder, mentioned⟩ := select_of_accepted accepted
    cases selects.symm.trans selects'
    exact ⟨accepted, inOrder, mentioned⟩
  · rintro ⟨accepted, inOrder, mentioned⟩
    obtain ⟨passes', selects', inOrder', mentioned'⟩ := select_of_accepted accepted
    -- a part of the order is determined by its members, because no pass is in it twice
    have distinct : all.Nodup := by decide
    have same : passes.Perm passes' :=
      (List.perm_ext_iff_of_nodup (inOrder.nodup distinct) (inOrder'.nodup distinct)).mpr
        fun pass => (mentioned pass).trans (mentioned' pass).symm
    rw [selects', (distinct.perm_iff_eq_of_sublist inOrder inOrder').mp same]

theorem select_eq_error_iff {names : List String} {name : String} :
    select names = .error name ↔
      ∃ before entry behind, names = before ++ entry :: behind ∧
        (∀ earlier ∈ before, Accepted earlier) ∧ ¬ Accepted entry ∧ Trimmed name entry := by
  constructor
  · intro fails
    have refused : ¬ ∀ entry ∈ names, Accepted entry := by
      intro accepted
      obtain ⟨passes, selects, -⟩ := select_of_accepted accepted
      cases fails.symm.trans selects
    obtain ⟨before, entry, behind, rfl, accepted, refusedEntry⟩ := exists_first_refused refused
    rw [select_of_refused accepted refusedEntry] at fails
    cases fails
    exact ⟨before, entry, behind, rfl, accepted, refusedEntry, Text.trimmed_strip entry⟩
  · rintro ⟨before, entry, behind, rfl, accepted, refused, trimmed⟩
    rw [select_of_refused accepted refused, Text.strip_of_trimmed trimmed]

/-! ## Respelled selections

A selection is determined by the names that are mentioned in it, the empty one apart.
No change of spelling adds or removes one of these. -/

/-- One change of spelling: entries change places, one is repeated, blanks are put
around entries, or a blank entry is inserted. -/
inductive Respelling : List String → List String → Prop
  | reordered {names names' : List String} (same : names.Perm names') : Respelling names names'
  | repeated {names : List String} {entry : String} (member : entry ∈ names) :
      Respelling names (entry :: names)
  | padded {names names' : List String} (padded : List.Forall₂ Padded names names') :
      Respelling names names'
  | blank {names : List String} {entry : String} (blanks : Text.Blanks entry.toList) :
      Respelling names (entry :: names)

/-- Two selections that changes of spelling, made or undone, lead from one to the
other. -/
def Respelled (names names' : List String) : Prop :=
  Relation.EqvGen Respelling names names'

theorem Respelling.mentions_iff {names names' : List String} (change : Respelling names names')
    {name : String} (nonempty : name ≠ "") : Mentions names name ↔ Mentions names' name := by
  cases change with
  | reordered same => simp only [Mentions, same.mem_iff]
  | repeated member =>
      rw [mentions_cons]
      exact (or_iff_right_of_imp fun trimmed => ⟨_, member, trimmed⟩).symm
  | padded padded =>
      induction padded with
      | nil => exact Iff.rfl
      | cons isPadded _ ih =>
          rw [mentions_cons, mentions_cons, ih, Text.trimmed_iff_of_padded isPadded]
  | blank blanks =>
      have notEntry : ¬ Trimmed name _ :=
        fun trimmed => nonempty (trimmed.unique (Text.trimmed_of_blanks blanks))
      rw [mentions_cons, or_iff_right notEntry]

theorem Respelled.mentions_iff {names names' : List String} (respelled : Respelled names names')
    {name : String} (nonempty : name ≠ "") : Mentions names name ↔ Mentions names' name := by
  induction respelled with
  | rel _ _ change => exact change.mentions_iff nonempty
  | refl _ => exact Iff.rfl
  | symm _ _ _ ih => exact ih.symm
  | trans _ _ _ _ _ first second => exact first.trans second

/-- The entries are in order if every name among them is one of a pass. -/
theorem forall_accepted_iff {names : List String} :
    (∀ entry ∈ names, Accepted entry) ↔
      ∀ name, name ≠ "" → Mentions names name → ∃ pass : Pass, name = pass.name := by
  constructor
  · rintro accepted name nonempty ⟨entry, member, trimmed⟩
    rcases accepted entry member with blank | ⟨pass, named⟩
    · exact absurd (trimmed.unique blank) nonempty
    · exact ⟨pass, trimmed.unique named⟩
  · intro known entry member
    have trimmed := Text.trimmed_strip entry
    by_cases isBlank : Text.strip entry = ""
    · exact .inl (isBlank ▸ trimmed)
    · obtain ⟨pass, isName⟩ := known _ isBlank ⟨entry, member, trimmed⟩
      exact .inr ⟨pass, isName ▸ trimmed⟩

theorem Respelled.select_iff {names names' : List String} (respelled : Respelled names names')
    {passes : List Pass} : select names = .ok passes ↔ select names' = .ok passes := by
  have accepted : (∀ entry ∈ names, Accepted entry) ↔ ∀ entry ∈ names', Accepted entry := by
    rw [forall_accepted_iff, forall_accepted_iff]
    refine forall_congr' fun name => imp_congr_right fun nonempty => ?_
    rw [respelled.mentions_iff nonempty]
  have mentioned : ∀ pass : Pass, Mentions names pass.name ↔ Mentions names' pass.name :=
    fun pass => respelled.mentions_iff pass.name_ne_empty
  simp only [select_eq_ok_iff, accepted, mentioned]

/-! ## Texts and results as selections -/

theorem selectText_intercalate {names : List String} (noComma : ∀ name ∈ names, ',' ∉ name.toList) :
    selectText (String.intercalate "," names) = select names := by
  cases names with
  | nil => rfl
  | cons name rest => rw [selectText, Text.split_intercalate (by simp) noComma]

theorem select_names {passes : List Pass} (inOrder : passes.Sublist all) :
    select (passes.map name) = .ok passes := by
  have trimmed_name_iff : ∀ pass other : Pass, Trimmed pass.name other.name ↔ other = pass := by
    intro pass other
    rw [Text.trimmed_iff, strip_name]
    exact ⟨name_injective, congrArg name⟩
  refine select_eq_ok_iff.mpr ⟨?_, inOrder, ?_⟩
  · rw [List.forall_mem_map]
    exact fun pass _ => .inr ⟨pass, (trimmed_name_iff pass pass).mpr rfl⟩
  · intro pass
    simp [Mentions, trimmed_name_iff]

end Pass

namespace Link

theorem run_of_select_eq {names names' : List String}
    (same : Pass.select names = Pass.select names') (origin : Option String) (text : String)
    (session : Session) :
    run names origin text session = run names' origin text session := by
  simp only [run, selectPasses, same]

theorem run_of_select_error {names : List String} {name : String}
    (fails : Pass.select names = .error name) (origin : Option String) (text : String)
    (session : Session) : run names origin text session = .error (.unknownPass name) session := by
  simp only [run, selectPasses, fails, Except.mapError]

end Link

/-- A selection succeeds exactly if every entry is blank or a name of a pass with
blanks around it, and then gives the mentioned passes in the order in which passes
run; otherwise it fails with the first entry that is neither.  So a respelled
selection selects the same passes and runs the same way on every source and store.  A
list of names without commas selects what the joined text selects, and the names of
the selected passes select them again. -/
theorem Pass.selection_ignores_spelling (names : List String) :
    ((∃ passes, Pass.select names = .ok passes) ↔ ∀ entry ∈ names, Pass.Accepted entry) ∧
    (∀ passes, Pass.select names = .ok passes →
      passes.Sublist Pass.all ∧ ∀ pass, pass ∈ passes ↔ Pass.Mentions names pass.name) ∧
    (∀ name, Pass.select names = .error name ↔
      ∃ before entry behind, names = before ++ entry :: behind ∧
        (∀ earlier ∈ before, Pass.Accepted earlier) ∧ ¬ Pass.Accepted entry ∧
          Text.Trimmed name entry) ∧
    (∀ name, Pass.select names = .error name → ∀ origin text session,
      Link.run names origin text session = .error (.unknownPass name) session) ∧
    (∀ names', Pass.Respelled names names' →
      (∀ passes, Pass.select names = .ok passes ↔ Pass.select names' = .ok passes) ∧
      ((∀ entry ∈ names, Pass.Accepted entry) → ∀ origin text session,
        Link.run names origin text session = Link.run names' origin text session)) ∧
    ((∀ name ∈ names, ',' ∉ name.toList) →
      Pass.selectText (String.intercalate "," names) = Pass.select names) ∧
    (∀ passes, Pass.select names = .ok passes →
      Pass.select (passes.map Pass.name) = .ok passes) := by
  refine ⟨⟨?_, ?_⟩, ?_, fun name => Pass.select_eq_error_iff, ?_, ?_,
    Pass.selectText_intercalate, ?_⟩
  · rintro ⟨passes, selects⟩
    exact Pass.accepted_of_select selects
  · intro accepted
    obtain ⟨passes, selects, -⟩ := Pass.select_of_accepted accepted
    exact ⟨passes, selects⟩
  · intro passes selects
    exact (Pass.select_eq_ok_iff.mp selects).2
  · intro name fails
    exact Link.run_of_select_error fails
  · intro names' respelled
    refine ⟨fun passes => respelled.select_iff, fun accepted => ?_⟩
    obtain ⟨passes, selects, -⟩ := Pass.select_of_accepted accepted
    have same : Pass.select names = Pass.select names' :=
      selects.trans (respelled.select_iff.mp selects).symm
    exact Link.run_of_select_eq same
  · intro passes selects
    exact Pass.select_names (Pass.select_eq_ok_iff.mp selects).2.1

/-- Two names, and the same two with a blank entry, a repetition and blanks around one
of them; and a selection with two names that are not known. -/
theorem Pass.selection_of_import_and_sort :
    let plain := ["import", "sort"]
    let respelled := [" \t", "sort", "sort", "\u2003import\n"]
    Pass.Respelled plain respelled ∧
      Pass.select respelled = .ok [.expandImports, .sortForms] ∧
      Pass.selectText "import,sort" = .ok [.expandImports, .sortForms] ∧
      Pass.select (Pass.defaults.map Pass.name) = .ok Pass.defaults ∧
      (∀ origin text session,
        Link.run plain origin text session = Link.run respelled origin text session) ∧
      ∀ origin text session, Link.run ["sort", " bogus ", "worse"] origin text session =
        .error (.unknownPass "bogus") session := by
  intro plain respelled
  have isRespelled : Pass.Respelled plain respelled := by
    refine .trans _ ["sort", "import"] _ (.rel _ _ (.reordered (.swap _ _ _))) ?_
    refine .trans _ ["sort", "\u2003import\n"] _ (.rel _ _ (.padded ?_)) ?_
    · exact .cons (Text.Padded.refl _)
        (.cons ⟨['\u2003'], ['\n'], by decide, by decide, by decide⟩ .nil)
    refine .trans _ ["sort", "sort", "\u2003import\n"] _ (.rel _ _ (.repeated (by decide))) ?_
    exact .rel _ _ (.blank (by decide))
  have selects : Pass.select plain = .ok [.expandImports, .sortForms] := rfl
  have unknown : Pass.select ["sort", " bogus ", "worse"] = .error "bogus" := rfl
  obtain ⟨accepts, -, -, -, same, joined, again⟩ := Pass.selection_ignores_spelling plain
  obtain ⟨-, -, -, fails, -⟩ := Pass.selection_ignores_spelling ["sort", " bogus ", "worse"]
  exact ⟨isRespelled, ((same _ isRespelled).1 _).mp selects, (joined (by decide)).trans selects,
    again _ selects, (same _ isRespelled).2 (accepts.mp ⟨_, selects⟩), fails _ unknown⟩

end WatLink
