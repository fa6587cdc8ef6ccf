import ConfigNotation.Proofs.Value.Equality
import Mathlib.Logic.Relation

/-!
The order of entries makes no difference to equality. A value in which entries were put into
another order, in a record at whatever depth, compares with all others as it did before.
-/

namespace ConfigNotation.Value

open Relation

/-- One step from a value to another: the entries of a record in it, at whatever
depth, are put into another order. -/
inductive Reorders : Value → Value → Prop
  | entries {entries others : List (String × Value)} (h : entries.Perm others) :
      Reorders (object ⟨entries⟩) (object ⟨others⟩)
  | item {part other : Value} (before after : List Value) (h : Reorders part other) :
      Reorders (array (before ++ part :: after)) (array (before ++ other :: after))
  | entry {part other : Value} (before : List (String × Value)) (key : String)
      (after : List (String × Value)) (h : Reorders part other) :
      Reorders (object ⟨before ++ (key, part) :: after⟩) (object ⟨before ++ (key, other) :: after⟩)

/-- Values that compare alike with all others. -/
def Alike (a b : Value) : Prop := ∀ other, other.IsBuilt → a.equals other = b.equals other

theorem rel_alike_self (x : Option Value) : Option.Rel Alike x x :=
  rel_self_iff.2 fun _ _ _ _ => rfl

/-- Values whose parts compare alike, place by place or key by key, compare
alike. -/
theorem EqualBy.alike {a b : Value} (ha : a.IsBuilt) (hb : b.IsBuilt) (h : EqualBy Alike a b) :
    Alike a b := by
  intro other hother
  rw [Bool.eq_iff_iff, equals_iff ha hother, equals_iff hb hother]
  constructor
  · intro hequal
    have hflip : EqualBy Alike b a := h.flip fun x _ y _ hxy z hz => (hxy z hz).symm
    exact hflip.comp hequal fun x _ y _ z hz hxy hyz => (hxy z (hother.part hz)).trans hyz
  · intro hequal
    exact h.comp hequal fun x _ y _ z hz hxy hyz => (hxy z (hother.part hz)).trans hyz

theorem get?_eq_of_perm {entries others : List (String × Value)}
    (hkeys : (entries.map (·.1)).Nodup) (h : entries.Perm others) (key : String) :
    (Record.mk entries).get? key = (Record.mk others).get? key := by
  have hothers : (others.map (·.1)).Nodup := (h.map _).nodup_iff.1 hkeys
  ext value
  constructor
  · intro hvalue
    exact Record.get?_of_mem hothers (h.mem_iff.1 (Record.mem_of_get? hvalue))
  · intro hvalue
    exact Record.get?_of_mem hkeys (h.mem_iff.2 (Record.mem_of_get? hvalue))

/-- Where one element is replaced, what stands at a place is the same or the two
elements. -/
theorem rel_getElem?_replaced {R : Value → Value → Prop} (hself : ∀ x, Option.Rel R x x)
    {part other : Value} (h : R part other) (before after : List Value) (place : Nat) :
    Option.Rel R (before ++ part :: after)[place]? (before ++ other :: after)[place]? := by
  induction before generalizing place with
  | nil =>
      cases place with
      | zero => exact .some h
      | succ place => exact hself _
  | cons first rest ih =>
      cases place with
      | zero => exact hself _
      | succ place => exact ih place

theorem rel_lookup_replaced {R : Value → Value → Prop} (hself : ∀ x, Option.Rel R x x)
    {part other : Value} (h : R part other) (before : List (String × Value)) (name : String)
    (after : List (String × Value)) (key : String) :
    Option.Rel R (Record.lookup key (before ++ (name, part) :: after))
      (Record.lookup key (before ++ (name, other) :: after)) := by
  induction before with
  | nil =>
      rw [List.nil_append, List.nil_append, Record.lookup, Record.lookup]
      split
      · exact .some h
      · exact hself _
  | cons first rest ih =>
      rw [List.cons_append, List.cons_append, Record.lookup, Record.lookup]
      split
      · exact hself _
      · exact ih

theorem forall_mem_replaced {p : Value → Prop} {part other : Value} {before after : List Value}
    (h : ∀ inner ∈ before ++ part :: after, p inner) (hother : p part → p other) :
    ∀ inner ∈ before ++ other :: after, p inner := by
  rw [List.forall_mem_append, List.forall_mem_cons] at h ⊢
  exact ⟨h.1, hother h.2.1, h.2.2⟩

namespace Reorders

variable {a b : Value}

theorem isBuilt (h : Reorders a b) (ha : a.IsBuilt) : b.IsBuilt := by
  induction h with
  | entries h =>
      rw [isBuilt_iff] at ha ⊢
      refine ⟨?_, fun part hpart => ha.2 part ((h.map _).mem_iff.2 hpart)⟩
      rintro _ ⟨⟩
      exact (h.map _).nodup_iff.1 (ha.1 _ rfl)
  | item before after h ih =>
      rw [isBuilt_iff] at ha ⊢
      exact ⟨nofun, forall_mem_replaced ha.2 ih⟩
  | entry before key after h ih =>
      rw [isBuilt_iff] at ha ⊢
      simp only [parts, Record.values, Record.keys, object.injEq, forall_eq', List.map_append,
        List.map_cons] at ha ⊢
      exact ⟨ha.1, forall_mem_replaced ha.2 ih⟩

/-- A step makes no difference to a comparison: it changes no look-up, or it
changes what is found at one place into something that compares alike. -/
theorem alike (h : Reorders a b) (ha : a.IsBuilt) : Alike a b := by
  have hb := h.isBuilt ha
  induction h with
  | entries h =>
      refine EqualBy.alike ha hb (.object fun key => ?_)
      rw [get?_eq_of_perm ha.nodup h]
      exact rel_alike_self _
  | item before after h ih =>
      have hpart := ha.part (List.mem_append_right before List.mem_cons_self)
      exact EqualBy.alike ha hb
        (.array (rel_getElem?_replaced rel_alike_self (ih hpart (h.isBuilt hpart)) before after))
  | entry before key after h ih =>
      have hpart := ha.part (List.mem_map_of_mem
        (List.mem_append_right before List.mem_cons_self))
      exact EqualBy.alike ha hb
        (.object (rel_lookup_replaced rel_alike_self (ih hpart (h.isBuilt hpart)) before key after))

theorem alike_of_steps (h : ReflTransGen Reorders a b) (ha : a.IsBuilt) :
    b.IsBuilt ∧ Alike a b := by
  induction h with
  | refl => exact ⟨ha, fun _ _ => rfl⟩
  | tail _ hstep ih =>
      obtain ⟨hmiddle, halike⟩ := ih
      exact ⟨hstep.isBuilt hmiddle,
        fun other hother => (halike other hother).trans (hstep.alike hmiddle other hother)⟩

end Reorders

theorem equals_of_reorders {a b a' b' : Value} (ha : a.IsBuilt) (hb : b.IsBuilt)
    (hfirst : ReflTransGen Reorders a a') (hsecond : ReflTransGen Reorders b b') :
    a'.equals b' = a.equals b := by
  obtain ⟨ha', hfirst⟩ := Reorders.alike_of_steps hfirst ha
  obtain ⟨hb', hsecond⟩ := Reorders.alike_of_steps hsecond hb
  -- One side is put into another order at a time, the other one after the sides are exchanged.
  calc a'.equals b' = a.equals b' := (hfirst b' hb').symm
    _ = b'.equals a := equals_comm ha hb'
    _ = b.equals a := (hsecond a ha).symm
    _ = a.equals b := equals_comm hb ha

/-- Equality of values whose records are built by insertions is deep and does
not depend on the order of entries: it is that of the parts, it is symmetric and
transitive, it holds of a value and itself unless there is a number in it that
is none, and entries in another order change nothing. Records are equal if they
have the same keys and equal values under each of them. -/
theorem equals_is_deep :
    (∀ a b : Value, a.IsBuilt → b.IsBuilt →
      (a.equals b = true ↔ EqualBy (fun x y => x.equals y = true) a b)) ∧
    (∀ a b : Value, a.IsBuilt → b.IsBuilt → a.equals b = b.equals a) ∧
    (∀ a b c : Value, a.IsBuilt → b.IsBuilt → c.IsBuilt →
      a.equals b = true → b.equals c = true → a.equals c = true) ∧
    (∀ a : Value, a.IsBuilt → (a.equals a = true ↔ ¬a.Holds (number .nan))) ∧
    (∀ a b a' b' : Value, a.IsBuilt → b.IsBuilt → ReflTransGen Reorders a a' →
      ReflTransGen Reorders b b' → a'.equals b' = a.equals b) ∧
    ∀ a b : Record Value, (object a).IsBuilt → (object b).IsBuilt →
      ((object a).equals (object b) = true ↔
        (∀ key, key ∈ a.keys ↔ key ∈ b.keys) ∧
        ∀ key x y, a.get? key = some x → b.get? key = some y → x.equals y = true) := by
  refine ⟨fun a b => equals_iff, fun a b => equals_comm, fun a b c => equals_trans,
    fun a => equals_self_iff, fun a b a' b' => equals_of_reorders, ?_⟩
  intro a b ha hb
  exact object_equals_iff ha.nodup hb.nodup

def nested : Value :=
  object ⟨[("rows", array [object ⟨[("low", null), ("high", number (.infinity false))]⟩]),
    ("name", string "x")]⟩

/-- The same with the entries of both records the other way round. -/
def nestedReordered : Value :=
  object ⟨[("name", string "x"),
    ("rows", array [object ⟨[("high", number (.infinity false)), ("low", null)]⟩])]⟩

theorem isBuilt_nested : nested.IsBuilt := by
  have hleaf {value : Value} (h : value.parts = []) (hother : ∀ record, value ≠ object record) :
      value.IsBuilt :=
    isBuilt_iff.2 ⟨fun record hrecord => absurd hrecord (hother record), by simp [h]⟩
  have hrow : (object ⟨[("low", null), ("high", number (.infinity false))]⟩).IsBuilt := by
    refine isBuilt_iff.2 ⟨by rintro _ ⟨⟩; decide, ?_⟩
    simp only [parts, Record.values, List.map_cons, List.map_nil, List.forall_mem_cons]
    exact ⟨hleaf rfl nofun, hleaf rfl nofun, nofun⟩
  have hrows : (array [object ⟨[("low", null), ("high", number (.infinity false))]⟩]).IsBuilt :=
    isBuilt_iff.2 ⟨nofun, List.forall_mem_singleton.2 hrow⟩
  refine isBuilt_iff.2 ⟨by rintro _ ⟨⟩; decide, ?_⟩
  simp only [nested, parts, Record.values, List.map_cons, List.map_nil, List.forall_mem_cons]
  exact ⟨hrows, hleaf rfl nofun, nofun⟩

theorem nested_reorders : ReflTransGen Reorders nested nestedReordered := by
  have hinner : Reorders (object ⟨[("low", null), ("high", number (.infinity false))]⟩)
      (object ⟨[("high", number (.infinity false)), ("low", null)]⟩) :=
    .entries (.swap _ _ _)
  exact .tail (.single (.entry [] "rows" _ (.item [] [] hinner))) (.entries (.swap _ _ _))

theorem equals_is_deep_nested :
    nested.IsBuilt ∧ nestedReordered.IsBuilt ∧ ReflTransGen Reorders nested nestedReordered ∧
      nested.equals nestedReordered = true ∧ nestedReordered.equals nested = true ∧
      nested.equals nested = true ∧ ¬nested.Holds (number .nan) := by
  have hbuilt := isBuilt_nested
  have hreordered := (Reorders.alike_of_steps nested_reorders hbuilt).1
  have hsame : nested.equals nestedReordered = true := by decide
  have hback : nestedReordered.equals nested = true := by
    rw [equals_is_deep.2.1 _ _ hreordered hbuilt, hsame]
  have hself : nested.equals nested = true :=
    equals_is_deep.2.2.1 _ _ _ hbuilt hreordered hbuilt hsame hback
  exact ⟨hbuilt, hreordered, nested_reorders, hsame, hback, hself,
    (equals_is_deep.2.2.2.1 _ hbuilt).1 hself⟩

end ConfigNotation.Value
