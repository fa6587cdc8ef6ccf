import ConfigNotation.Proofs.Eval.SoundValues
import ConfigNotation.Proofs.Source.RoundTrip

/-!
The source that is written for a value which a text was evaluated to. It is written for every
container, and its value is an equal one if no regular expression in it is taken for a comment
or for the start of a string. A quote in one puts the strings behind it out of step.
-/

namespace ConfigNotation

open Text

theorem Number.readBack_equals {value : Number} (h : value.isNaN = false) :
    value.readBack.equals value = true := by
  cases value with
  | nan => cases h
  | infinity negative => simp [readBack, equals]
  | finite negative magnitude =>
      cases hzero : magnitude.isZero <;> simp [readBack, equals, hzero]

namespace Value

/-- A leaf that is written as what it is: no date, no buffer, and no number that
is none. -/
def isPlain : Value → Bool
  | date _ | buffer _ | array _ | object _ => false
  | number value => !value.isNaN
  | _ => true

theorem length_entriesReadBack (entries : List (String × Value)) :
    (entriesReadBack entries).length = entries.length := by
  induction entries with
  | nil => rfl
  | cons entry rest ih => rw [entriesReadBack, List.length_cons, ih, List.length_cons]

section

variable {condition : Value → Prop}

mutual

/-- Nothing but the sign of a zero is lost. -/
theorem readBack_equals {value : Value} (h : value.Keyed condition)
    (hplain : ∀ leaf ∈ value.leaves, leaf.isPlain = true) :
    value.readBack.equals value = true := by
  cases value with
  | array items => exact itemsReadBack_equal h hplain
  | object record =>
      obtain ⟨entries⟩ := record
      have hfound : ∀ entry ∈ entries, (Record.mk entries).get? entry.1 = some entry.2 :=
        fun _ hentry => Record.get?_of_mem h.1 hentry
      have hentries := entriesReadBack_equal h.2 hplain hfound
      rw [readBack, equals, hentries, length_entriesReadBack]
      simp [Record.size]
  | number value =>
      have hnumber : value.isNaN = false := by
        simpa [isPlain] using hplain (number value) List.mem_cons_self
      exact Number.readBack_equals hnumber
  | null | undefined => rfl
  | boolean | bigInt | string | regExp => simp [readBack, equals]
  | date value => simpa [isPlain] using hplain (date value) List.mem_cons_self
  | buffer value => simpa [isPlain] using hplain (buffer value) List.mem_cons_self

theorem itemsReadBack_equal {items : List Value} (h : ItemsKeyed condition items)
    (hplain : ∀ leaf ∈ itemsLeaves items, leaf.isPlain = true) :
    itemsEqual (itemsReadBack items) items = true := by
  cases items with
  | nil => rfl
  | cons item rest =>
      rw [itemsLeaves, List.forall_mem_append] at hplain
      rw [itemsReadBack, itemsEqual, readBack_equals h.1 hplain.1,
        itemsReadBack_equal h.2 hplain.2]
      rfl

/-- The entries are compared with those of a record in which they are found. -/
theorem entriesReadBack_equal {entries : List (String × Value)} {record : Record Value}
    (h : EntriesKeyed condition entries)
    (hplain : ∀ leaf ∈ entriesLeaves entries, leaf.isPlain = true)
    (hfound : ∀ entry ∈ entries, record.get? entry.1 = some entry.2) :
    entriesEqual (entriesReadBack entries) record = true := by
  match entries, h with
  | [], _ => rfl
  | (key, item) :: rest, ⟨_, hitem, hrest⟩ =>
      rw [entriesLeaves, List.forall_mem_append] at hplain
      obtain ⟨hfirst, hothers⟩ := List.forall_mem_cons.1 hfound
      dsimp only at hfirst
      rw [entriesReadBack, entriesEqual, hfirst]
      dsimp only
      rw [readBack_equals hitem hplain.1, entriesReadBack_equal hrest hplain.2 hothers]
      rfl

end

end

/-- Whether the regular expression that a leaf may be is left as it is where
comments are blanked: read as code, it has no comment in it and leaves no
string open. -/
def LeftAlone (leaf : Value) : Prop :=
  ∀ value, leaf = regExp value → IsVerbatim value.text.toList

theorem Sound.legible {value : Value} (h : value.Sound)
    (hplain : ∀ leaf ∈ value.leaves, leaf.isPlain = true) :
    value.Keyed (IsLegible False) := by
  refine Keyed.imp h fun leaf hleaf hread => ?_
  have hplain := hplain leaf hleaf
  cases leaf with
  | regExp value => exact ⟨hread, False.elim⟩
  | date => cases hplain
  | _ => trivial

theorem Keyed.legible_of_leftAlone {value : Value} (h : value.Keyed (IsLegible False))
    (halone : ∀ leaf ∈ value.leaves, leaf.LeftAlone) :
    value.Keyed (IsLegible True) := by
  refine Keyed.imp h fun leaf hleaf hlegible => ?_
  cases leaf with
  | regExp value => exact ⟨hlegible.1, fun _ => halone _ hleaf value rfl⟩
  | date => cases hlegible
  | _ => trivial

end Value

/-- A container that a text is evaluated to, all leaves of which are written as
what they are, is written for every indentation. What is written has an equal
value if nothing in it is taken for a comment; so it is if all regular
expressions are left alone. -/
theorem evaluated_source_round_trip {workspace : Workspace} {depth : Nat} {source : String}
    {value : Value} (h : workspace.evaluate? depth source = some (.ok value))
    (hcontainer : value.isContainer = true)
    (hplain : ∀ leaf ∈ value.leaves, leaf.isPlain = true) (indent : Nat) :
    ∃ text, value.source none indent = .ok text ∧
      (stripComments text.toList = .ok text.toList →
        ∃ again, again.equals value = true ∧ ∃ least, ∀ depth, least ≤ depth →
          workspace.evaluate? depth text = some (.ok again)) ∧
      ((∀ leaf ∈ value.leaves, leaf.LeftAlone) →
        stripComments text.toList = .ok text.toList) := by
  have hsound := Workspace.sound_of_evaluate? h
  have hlegible := hsound.legible hplain
  refine ⟨_, Source.source_of_keyed hcontainer hsound indent, fun hkept => ?_, fun halone => ?_⟩
  · rw [String.toList_ofList] at hkept
    obtain ⟨lexed, module, hparse, hexports⟩ := workspace.parse_of_kept hlegible indent hkept
    exact ⟨_, Value.readBack_equals hsound hplain, workspace.evaluate?_of_exports hparse hexports⟩
  · have hspelled := Source.spelled_of_legible (hlegible.legible_of_leftAlone halone) indent
    rw [String.toList_ofList]
    exact stripComments_of_isVerbatim (hspelled.isVerbatim trivial)

def bare : Workspace := ⟨.new ⟨"/"⟩, Store.empty.fileSystem, fun _ _ => ""⟩

/-- A regular expression that closes the string it opens, before a string with
an apostrophe. -/
def quoting : Value := .array [.regExp ⟨"\"a'b\"", ""⟩, .string "it's"]

theorem evaluated_source_round_trip_quoting :
    ∃ depth source, bare.evaluate? depth source = some (.ok quoting) ∧
      quoting.isContainer = true ∧ (∀ leaf ∈ quoting.leaves, leaf.isPlain = true) ∧
      ∃ text, quoting.source none 2 = .ok text ∧
        ∃ again, again.equals quoting = true ∧ ∃ least, ∀ depth, least ≤ depth →
          bare.evaluate? depth text = some (.ok again) := by
  have halone : IsVerbatim (RegExp.text ⟨"\"a'b\"", ""⟩).toList := ⟨by decide, fun _ _ => rfl⟩
  have hliteral : RegExp.IsLiteral ⟨"\"a'b\"", ""⟩ := by
    refine ⟨?_, by decide, by decide, by decide +kernel⟩
    refine .plain ?_ ?_ ?_ (.plain ?_ ?_ ?_ (.plain ?_ ?_ ?_ (.plain ?_ ?_ ?_
      (.plain ?_ ?_ ?_ .nil))))
    all_goals decide
  have hlegible : quoting.Keyed (Value.IsLegible True) :=
    ⟨⟨hliteral, fun _ => halone⟩, trivial, trivial⟩
  have hkept := stripComments_of_isVerbatim
    ((Source.spelled_of_legible hlegible 0).isVerbatim trivial)
  obtain ⟨lexed, module, hparse, hexports⟩ := bare.parse_of_kept hlegible 0 hkept
  obtain ⟨least, hleast⟩ := bare.evaluate?_of_exports hparse hexports
  have hleaves : quoting.leaves = [.regExp ⟨"\"a'b\"", ""⟩, .string "it's"] := rfl
  have hplain : ∀ leaf ∈ quoting.leaves, leaf.isPlain = true := by
    rw [hleaves]
    exact List.forall_mem_cons.2 ⟨rfl, List.forall_mem_singleton.2 rfl⟩
  have hvalue : bare.evaluate? least _ = some (.ok quoting) :=
    hleast least (Nat.le_refl least)
  obtain ⟨text, htext, hround, hregExps⟩ := evaluated_source_round_trip hvalue rfl hplain 2
  refine ⟨least, _, hvalue, rfl, hplain, text, htext, hround (hregExps ?_)⟩
  rw [hleaves]
  refine List.forall_mem_cons.2 ⟨?_, List.forall_mem_singleton.2 nofun⟩
  rintro value ⟨⟩
  exact halone

/-- A string with an apostrophe that is used behind a regular expression with a
quote. -/
def outOfStep : String := "use \"it's\" as s; export [@* => /\"/; @* => s;];"

/-- What is written for its value. The string is in code for the stripper
here. -/
def outOfStepAgain : String := "export [@*=>/\"/;@*=>\"it's\";];"

theorem evaluated_source_out_of_step :
    ∃ value, bare.evaluate? 6 outOfStep = some (.ok value) ∧ value.isContainer = true ∧
      (∀ leaf ∈ value.leaves, leaf.isPlain = true) ∧
      ∃ text, value.source none 0 = .ok text ∧ ∀ depth,
        bare.evaluate? (depth + 1) text =
          some (.error (.lex ⟨.unterminatedBlockComment, ⟨23, 24⟩, ⟨1, 24⟩⟩)) := by
  have hseen : (bare.evaluate? 6 outOfStep).map (fun outcome => outcome.toOption.map fun value =>
      (value.isContainer, value.leaves.all Value.isPlain, (value.source none 0).toOption)) =
        some (some (true, true, some outOfStepAgain)) := by decide +kernel
  obtain ⟨outcome, hvalue, hseen⟩ := Option.map_eq_some_iff.1 hseen
  obtain ⟨value, rfl⟩ : ∃ value, outcome = .ok value := by
    cases outcome with
    | error => cases hseen
    | ok value => exact ⟨value, rfl⟩
  simp only [Except.toOption, Option.map_some, Option.some.injEq, Prod.mk.injEq] at hseen
  obtain ⟨hcontainer, hplain, htext⟩ := hseen
  have hsource : value.source none 0 = .ok outOfStepAgain := by
    cases hsource : value.source none 0 with
    | error => simp [hsource] at htext
    | ok text => simpa [hsource] using htext
  refine ⟨value, hvalue, hcontainer, List.all_eq_true.1 hplain, _, hsource, fun depth => ?_⟩
  have hlex : lex outOfStepAgain =
      .error ⟨.unterminatedBlockComment, ⟨23, 24⟩, ⟨1, 24⟩⟩ := by decide +kernel
  have hparse : bare.parse outOfStepAgain = .error _ :=
    Workspace.parse_eq_error.2 (.inl ⟨_, hlex, rfl⟩)
  rw [Workspace.evaluate?, evaluates_iff_run.2 (.unparsed hparse)]
  rfl

end ConfigNotation
