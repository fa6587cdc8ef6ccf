import ConfigNotation.Proofs.Value.Built
import Mathlib.Data.List.Perm.Subperm

/-!
Equality of values whose records are built by insertions. Two records are compared in one
direction only, by their sizes and by a look-up of each entry of the first; since each key stands
once, this finds the same keys on both sides. So equality is symmetric and transitive, and it
holds of a value and itself unless there is a number in it that is none.
-/

namespace ConfigNotation

namespace Number

theorem equals_comm (a b : Number) : a.equals b = b.equals a := by
  cases a <;> cases b <;> grind [equals]

theorem equals_trans {a b c : Number} (hfirst : a.equals b = true) (hsecond : b.equals c = true) :
    a.equals c = true := by
  cases a <;> cases b <;> cases c <;> grind [equals]

/-- A number that is none is the only one that differs from itself. -/
theorem equals_self_iff {a : Number} : a.equals a = true ↔ a ≠ nan := by
  cases a <;> simp [equals]

end Number

namespace Value

/-- What a comparison of two values comes to, with a relation for what is inside
them. -/
inductive EqualBy (R : Value → Value → Prop) : Value → Value → Prop
  | number {a b : Number} (h : a.equals b = true) : EqualBy R (number a) (number b)
  | leaf {value : Value} (hleaf : value.isContainer = false)
      (hnumber : ∀ a, value ≠ number a) : EqualBy R value value
  | array {a b : List Value} (h : ∀ place : Nat, Option.Rel R a[place]? b[place]?) :
      EqualBy R (array a) (array b)
  | object {a b : Record Value} (h : ∀ key, Option.Rel R (a.get? key) (b.get? key)) :
      EqualBy R (object a) (object b)

section

variable {R S T : Value → Value → Prop} {x y z : Option Value}

theorem rel_iff : Option.Rel R x y ↔
    (x = none ↔ y = none) ∧ ∀ a b, x = some a → y = some b → R a b := by
  cases x <;> cases y <;> simp

theorem rel_flip (h : Option.Rel R x y)
    (hflip : ∀ a b, x = some a → y = some b → R a b → S b a) : Option.Rel S y x := by
  cases h with
  | none => exact .none
  | some h => exact .some (hflip _ _ rfl rfl h)

/-- Relations on optional things compose. The three relations may differ, so
that the lemma serves an induction over three values at once. -/
theorem rel_trans (hfirst : Option.Rel R x y) (hsecond : Option.Rel S y z)
    (htrans : ∀ a b c, x = some a → y = some b → z = some c → R a b → S b c → T a c) :
    Option.Rel T x z := by
  cases hfirst with
  | none =>
      cases hsecond
      exact .none
  | some hfirst =>
      cases hsecond with
      | some hsecond => exact .some (htrans _ _ _ rfl rfl rfl hfirst hsecond)

theorem rel_self_iff : Option.Rel R x x ↔ ∀ a, x = some a → R a a := by
  cases x <;> simp

end

theorem itemsEqual_iff {items others : List Value} :
    itemsEqual items others = true ↔
      ∀ place : Nat, Option.Rel (fun a b => a.equals b = true) items[place]? others[place]? := by
  induction items generalizing others with
  | nil =>
      cases others with
      | nil => exact iff_of_true rfl fun _ => .none
      | cons => exact iff_of_false nofun fun h => nomatch h 0
  | cons item rest ih =>
      cases others with
      | nil => exact iff_of_false nofun fun h => nomatch h 0
      | cons other others =>
          rw [itemsEqual, Bool.and_eq_true, ih]
          constructor
          · rintro ⟨hfirst, hrest⟩ (_ | place)
            · exact .some hfirst
            · exact hrest place
          · intro h
            refine ⟨?_, fun place => h (place + 1)⟩
            cases h 0 with
            | some hfirst => exact hfirst

/-- Entries compare equal with a record if each of them is found there with an
equal value. Nothing is said about further entries of the record. -/
theorem entriesEqual_iff {entries : List (String × Value)} {record : Record Value} :
    entriesEqual entries record = true ↔
      ∀ entry ∈ entries, ∃ found, record.get? entry.1 = some found ∧
        entry.2.equals found = true := by
  induction entries with
  | nil => simp [entriesEqual]
  | cons entry rest ih =>
      obtain ⟨key, item⟩ := entry
      rw [entriesEqual, Bool.and_eq_true, ih, List.forall_mem_cons]
      refine and_congr_left' ?_
      cases record.get? key <;> simp

theorem mem_keys_iff {record : Record Value} {key : String} :
    key ∈ record.keys ↔ ∃ value, record.get? key = some value := by
  rw [← Option.ne_none_iff_exists', ne_eq, Record.get?_eq_none_iff, not_not]

/-- Records with as many entries, of which one has all keys of the other, have
the same keys. -/
theorem mem_keys_iff_of_subset {a b : Record Value} (ha : a.keys.Nodup) (hsize : a.size = b.size)
    (h : a.keys ⊆ b.keys) (key : String) : key ∈ a.keys ↔ key ∈ b.keys := by
  have hlength : b.keys.length ≤ a.keys.length := by
    rw [Record.keys, Record.keys, List.length_map, List.length_map]
    exact Nat.le_of_eq hsize.symm
  exact ((List.subperm_of_subset ha h).perm_of_length_le hlength).mem_iff

/-- Records with the same keys have the same size, as no key is given twice. -/
theorem size_eq_of_mem_keys_iff {a b : Record Value} (ha : a.keys.Nodup) (hb : b.keys.Nodup)
    (h : ∀ key, key ∈ a.keys ↔ key ∈ b.keys) : a.size = b.size := by
  have hlength := ((List.perm_ext_iff_of_nodup ha hb).2 h).length_eq
  rwa [Record.keys, Record.keys, List.length_map, List.length_map] at hlength

/-- Look-ups in one direction, and as many entries, come to the same keys on
both sides. -/
theorem object_equals_iff {a b : Record Value} (ha : a.keys.Nodup) (hb : b.keys.Nodup) :
    (object a).equals (object b) = true ↔
      (∀ key, key ∈ a.keys ↔ key ∈ b.keys) ∧
      ∀ key x y, a.get? key = some x → b.get? key = some y → x.equals y = true := by
  have hequals : (object a).equals (object b) = true ↔
      a.size = b.size ∧ entriesEqual a.entries b = true := by
    rw [equals, Bool.and_eq_true, beq_iff_eq]
    rfl
  rw [hequals, entriesEqual_iff]
  constructor
  · rintro ⟨hsize, hentries⟩
    have hsubset : a.keys ⊆ b.keys := by
      intro key hkey
      obtain ⟨entry, hentry, rfl⟩ := List.mem_map.1 hkey
      obtain ⟨found, hfound, -⟩ := hentries entry hentry
      exact mem_keys_iff.2 ⟨found, hfound⟩
    refine ⟨mem_keys_iff_of_subset ha hsize hsubset, fun key x y hx hy => ?_⟩
    obtain ⟨found, hfound, hsame⟩ := hentries _ (Record.mem_of_get? hx)
    rwa [Option.some.inj (hy.symm.trans hfound)]
  · rintro ⟨hkeys, hsame⟩
    refine ⟨size_eq_of_mem_keys_iff ha hb hkeys, fun entry hentry => ?_⟩
    obtain ⟨found, hfound⟩ :=
      mem_keys_iff.1 ((hkeys entry.1).1 (List.mem_map_of_mem hentry))
    exact ⟨found, hfound, hsame _ _ _ (Record.get?_of_mem ha hentry) hfound⟩

/-- Looking up all keys, present or not, says that the keys agree and that the
values under each do. -/
theorem forall_rel_get?_iff {R : Value → Value → Prop} {a b : Record Value} :
    (∀ key, Option.Rel R (a.get? key) (b.get? key)) ↔
      (∀ key, key ∈ a.keys ↔ key ∈ b.keys) ∧
      ∀ key x y, a.get? key = some x → b.get? key = some y → R x y := by
  simp only [rel_iff, forall_and, Record.get?_eq_none_iff, not_iff_not]

section

variable {R : Value → Value → Prop}

theorem equalBy_number_iff {a b : Number} :
    EqualBy R (number a) (number b) ↔ a.equals b = true := by
  refine ⟨fun h => ?_, .number⟩
  cases h with
  | number h => exact h
  | leaf _ hnumber => exact absurd rfl (hnumber a)

theorem equalBy_array_iff {a b : List Value} :
    EqualBy R (array a) (array b) ↔ ∀ place : Nat, Option.Rel R a[place]? b[place]? := by
  refine ⟨fun h => ?_, .array⟩
  cases h with
  | array h => exact h
  | leaf hleaf => cases hleaf

theorem equalBy_object_iff {a b : Record Value} :
    EqualBy R (object a) (object b) ↔ ∀ key, Option.Rel R (a.get? key) (b.get? key) := by
  refine ⟨fun h => ?_, .object⟩
  cases h with
  | object h => exact h
  | leaf hleaf => cases hleaf

end

section

variable {value other : Value} (hleaf : value.isContainer = false)
  (hnumber : ∀ a, value ≠ number a)

include hleaf hnumber

theorem leaf_equals_iff : value.equals other = true ↔ value = other := by
  cases value with
  | array | object => cases hleaf
  | number a => exact absurd rfl (hnumber a)
  | _ => cases other <;> simp [equals]

theorem equalBy_leaf_iff {R : Value → Value → Prop} : EqualBy R value other ↔ value = other := by
  constructor
  · intro h
    cases h with
    | number => exact absurd rfl (hnumber _)
    | leaf => rfl
    | array | object => cases hleaf
  · rintro rfl
    exact .leaf hleaf hnumber

theorem equals_iff_of_leaf {R : Value → Value → Prop} :
    value.equals other = true ↔ EqualBy R value other :=
  (leaf_equals_iff hleaf hnumber).trans (equalBy_leaf_iff hleaf hnumber).symm

end

/-- A comparison is one of the parts, place by place or key by key, or one of
leaves. -/
theorem equals_iff {a b : Value} (ha : a.IsBuilt) (hb : b.IsBuilt) :
    a.equals b = true ↔ EqualBy (fun x y => x.equals y = true) a b := by
  cases a with
  | array items =>
      cases b with
      | array others => rw [equals, itemsEqual_iff, equalBy_array_iff]
      | _ => exact iff_of_false nofun nofun
  | object record =>
      cases b with
      | object other =>
          rw [object_equals_iff ha.nodup hb.nodup, equalBy_object_iff, forall_rel_get?_iff]
      | _ => exact iff_of_false nofun nofun
  | number value =>
      cases b with
      | number other => exact equalBy_number_iff.symm
      | _ => exact iff_of_false nofun nofun
  | _ =>
      apply equals_iff_of_leaf
      · rfl
      · exact nofun

namespace EqualBy

variable {R S T : Value → Value → Prop} {a b c : Value}

/-- A comparison can be read from the other side if the relation inside can,
part by part. -/
theorem flip (h : EqualBy R a b)
    (hflip : ∀ x ∈ a.parts, ∀ y ∈ b.parts, R x y → S y x) : EqualBy S b a := by
  cases h with
  | number h => exact .number (by rwa [Number.equals_comm])
  | leaf hleaf hnumber => exact .leaf hleaf hnumber
  | array h =>
      exact .array fun place => rel_flip (h place) fun x y hx hy =>
        hflip x (List.mem_of_getElem? hx) y (List.mem_of_getElem? hy)
  | object h =>
      exact .object fun key => rel_flip (h key) fun x y hx hy =>
        hflip x (mem_parts_of_get? hx) y (mem_parts_of_get? hy)

/-- Two comparisons compose to one, part by part. The middle value is what both
sides meet in. -/
theorem comp (hfirst : EqualBy R a b) (hsecond : EqualBy S b c)
    (hcomp : ∀ x ∈ a.parts, ∀ y ∈ b.parts, ∀ z ∈ c.parts, R x y → S y z → T x z) :
    EqualBy T a c := by
  cases hfirst with
  | number hfirst =>
      cases hsecond with
      | number hsecond => exact .number (Number.equals_trans hfirst hsecond)
      | leaf _ hnumber => exact absurd rfl (hnumber _)
  | leaf hleaf hnumber =>
      cases (equalBy_leaf_iff hleaf hnumber).1 hsecond
      exact .leaf hleaf hnumber
  | array hfirst =>
      cases hsecond with
      | leaf hleaf => cases hleaf
      | array hsecond =>
          exact .array fun place => rel_trans (hfirst place) (hsecond place)
            fun x y z hx hy hz => hcomp x (List.mem_of_getElem? hx) y (List.mem_of_getElem? hy)
              z (List.mem_of_getElem? hz)
  | object hfirst =>
      cases hsecond with
      | leaf hleaf => cases hleaf
      | object hsecond =>
          exact .object fun key => rel_trans (hfirst key) (hsecond key)
            fun x y z hx hy hz => hcomp x (mem_parts_of_get? hx) y (mem_parts_of_get? hy)
              z (mem_parts_of_get? hz)

/-- A value compares equal with itself if its parts do and it is not `nan`. For
records this needs that no key is given twice. -/
theorem self_iff (ha : a.IsBuilt) :
    EqualBy R a a ↔ a ≠ Value.number .nan ∧ ∀ part ∈ a.parts, R part part := by
  cases a with
  | number value =>
      rw [equalBy_number_iff, Number.equals_self_iff, ne_eq (Value.number _), Value.number.injEq]
      exact (and_iff_left nofun).symm
  | array items =>
      rw [equalBy_array_iff, and_iff_right nofun]
      constructor
      · intro h part hpart
        obtain ⟨place, hplace⟩ := List.mem_iff_getElem?.1 hpart
        exact rel_self_iff.1 (h place) part hplace
      · intro h place
        exact rel_self_iff.2 fun part hplace => h part (List.mem_of_getElem? hplace)
  | object record =>
      rw [equalBy_object_iff, and_iff_right nofun]
      constructor
      · intro h part hpart
        obtain ⟨entry, hentry, rfl⟩ := List.mem_map.1 hpart
        exact rel_self_iff.1 (h entry.1) entry.2 (Record.get?_of_mem ha.nodup hentry)
      · intro h key
        exact rel_self_iff.2 fun part hpart => h part (mem_parts_of_get? hpart)
  | _ => exact iff_of_true (.leaf rfl nofun) ⟨nofun, nofun⟩

end EqualBy

/-- Equality of built values is symmetric, although the comparison goes over the
entries of one side only. -/
theorem equals_flip {a b : Value} (ha : a.IsBuilt) (hb : b.IsBuilt) (h : a.equals b = true) :
    b.equals a = true := by
  -- The other value goes along with the induction: what is compared are parts of both.
  induction a using parts_induction generalizing b with
  | step a ih =>
      rw [equals_iff ha hb] at h
      rw [equals_iff hb ha]
      exact h.flip fun x hx y hy => ih x hx (ha.part hx) (hb.part hy)

theorem equals_comm {a b : Value} (ha : a.IsBuilt) (hb : b.IsBuilt) : a.equals b = b.equals a :=
  Bool.eq_iff_iff.2 ⟨equals_flip ha hb, equals_flip hb ha⟩

theorem equals_trans {a b c : Value} (ha : a.IsBuilt) (hb : b.IsBuilt) (hc : c.IsBuilt)
    (hfirst : a.equals b = true) (hsecond : b.equals c = true) : a.equals c = true := by
  induction a using parts_induction generalizing b c with
  | step a ih =>
      rw [equals_iff ha hb] at hfirst
      rw [equals_iff hb hc] at hsecond
      rw [equals_iff ha hc]
      exact hfirst.comp hsecond fun x hx y hy z hz =>
        ih x hx (ha.part hx) (hb.part hy) (hc.part hz)

/-- A built value equals itself exactly if it holds no `nan`, at whatever
depth. -/
theorem equals_self_iff {value : Value} (h : value.IsBuilt) :
    value.equals value = true ↔ ¬value.Holds (number .nan) := by
  induction value using parts_induction with
  | step value ih =>
      rw [equals_iff h h, EqualBy.self_iff h, holds_iff, not_or, ne_comm]
      refine and_congr_right' ?_
      rw [not_exists]
      simp only [not_and]
      exact forall₂_congr fun part hpart => ih part hpart (h.part hpart)

/-- A record is compared by its size and by a look-up of each of its entries in
the other one, and what is found may as well be compared with the entry as the
entry with it. -/
theorem object_equals_eq_all {a b : Record Value} (ha : (object a).IsBuilt)
    (hb : (object b).IsBuilt) :
    (object a).equals (object b) =
      (a.size == b.size && a.entries.all fun entry =>
        (b.get? entry.1).any fun found => found.equals entry.2) := by
  have hentries : entriesEqual a.entries b = a.entries.all fun entry =>
      (b.get? entry.1).any fun found => found.equals entry.2 := by
    rw [Bool.eq_iff_iff, entriesEqual_iff, List.all_eq_true]
    refine forall₂_congr fun entry hentry => ?_
    have hentry : entry.2.IsBuilt := ha.part (List.mem_map_of_mem hentry)
    cases hfound : b.get? entry.1 with
    | none => simp
    | some found =>
        have hcomm := equals_comm hentry (hb.part (mem_parts_of_get? hfound))
        simp [hcomm]
  rw [equals, ← hentries]
  rfl

end Value

end ConfigNotation
