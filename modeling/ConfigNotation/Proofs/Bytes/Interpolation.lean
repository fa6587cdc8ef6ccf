import ConfigNotation.Proofs.Bytes.Delimited
import ConfigNotation.Proofs.Eval.Interpolation
import ConfigNotation.Proofs.Text.Lines

/-!
The text that a string stands for, as it is put together by offsets into the bytes of its body.
The parts of a placeholder are found in the bytes, and are cut out of the text at the offsets
that were found. No body makes a step panic, every step takes at least one byte, and the text is
that of the body as a template.
-/

namespace ConfigNotation.Bytes

open Text Utf8 Pattern
open Placeholder hiding default

section

variable (bytes : List UInt8)

def nameEnd? (start : Nat) : Checked (Option Nat) :=
  match at? bytes start with
  | none => some none
  | some first =>
      if isIdentStart first then do
        let rest ← from? bytes start
        return some (start + (rest.takeWhile isWordChar).length)
      else some none

def digitsEnd? (start : Nat) : Option Nat :=
  (from? bytes start).bind fun rest =>
    let size := (rest.takeWhile Char.isDigit).length
    if 0 < size then some (start + size) else none

def segmentEnd? (start : Nat) : Checked (Option Nat) := do
  match ← nameEnd? bytes start with
  | some stop => return some stop
  | none => return digitsEnd? bytes start

theorem segmentEnd?_le {bytes : List UInt8} {start stop : Nat}
    (h : segmentEnd? bytes start = some (some stop)) : start ≤ stop := by
  obtain ⟨name?, hname, h⟩ := Option.bind_eq_some_iff.1 h
  cases name? with
  | some last =>
      cases h
      unfold nameEnd? at hname
      split at hname
      · cases hname
      · split at hname
        · obtain ⟨rest, -, hlast⟩ := Option.bind_eq_some_iff.1 hname
          cases hlast
          exact Nat.le_add_right _ _
        · cases hname
  | none =>
      obtain ⟨rest, -, hlast⟩ := Option.bind_eq_some_iff.1 (Option.some.inj h)
      rw [Option.ite_none_right_eq_some] at hlast
      obtain ⟨-, hlast⟩ := hlast
      cases hlast
      exact Nat.le_add_right _ _

def pathEnd? (offset : Nat) : Checked Nat :=
  if _hpoint : at? bytes offset = some '.' then
    match _hsegment : segmentEnd? bytes (offset + 1) with
    | none => none
    | some none => some offset
    | some (some stop) => pathEnd? stop
  else some offset
termination_by bytes.length - offset
decreasing_by
  have hinside := lt_length_of_at? _hpoint
  have hfurther := segmentEnd?_le _hsegment
  omega

def bracket? (start : Nat) : Option Nat :=
  (from? bytes start).bind fun rest =>
    (rest.findIdx? (· == ']')).bind fun size => if size = 0 then none else some (start + size)

/-- Where a default stands: at an offset, or with the gap before it where
nothing else is. -/
def defaultRange? (gap start : Nat) : Option (Nat × Nat) :=
  let quoted :=
    if at? bytes start = some '"' then
      (quoteEnd? bytes (fun _ => false) (start + 1)).filter fun close =>
        at? bytes close = some ']'
    else none
  match quoted with
  | some close => some (start, close)
  | none =>
      let first := if at? bytes start = some ']' then gap else start
      (bracket? bytes first).map fun close => (first, close)

end

/-- Where the default behind a question mark stands, with gaps around the
mark. -/
def markedDefault? (bytes : List UInt8) (offset : Nat) : Option (Nat × Nat) :=
  let question := offset + countWhile bytes offset isGap
  if at? bytes question = some '?' then
    defaultRange? bytes (question + 1) (question + 1 + countWhile bytes (question + 1) isGap)
  else none

/-- A placeholder that was found: the offset of its closing bracket, and the
parts that were cut out of it. -/
structure Found where
  close : Nat
  path : List Char
  default : Option (List Char)
  deriving DecidableEq, Repr

def Found.size (found : Found) : Nat := found.close + 1

/-- The placeholder at the start of a text, whose first character is a
bracket. -/
def placeholder? (text : List Char) : Checked (Option Found) := do
  let bytes := encode text
  match ← nameEnd? bytes 1 with
  | none => return none
  | some name =>
      let stop ← pathEnd? bytes name
      let path ← slice? 1 stop text
      if at? bytes stop = some ']' then
        return some ⟨stop, path, none⟩
      else
        match markedDefault? bytes stop with
        | none => return none
        | some (first, last) =>
            let default ← slice? first last text
            return some ⟨last, path, some default⟩

def unmarked? (mark text : List Char) : Checked (Option (List Char)) :=
  if 2 * byteSize mark ≤ byteSize text ∧ mark.isPrefixOf text ∧ mark.isSuffixOf text then
    (slice? (byteSize mark) (byteSize text - byteSize mark) text).map some
  else some none

def defaultText? (body : List Char) : Checked (List Char) := do
  match ← unmarked? ['\\', '"'] body with
  | some inner => return unescape inner
  | none =>
      match ← unmarked? ['"'] body with
      | some inner => return unescape inner
      | none => return wordText body

/-- What stands for a placeholder that was found at the start of a text. -/
def replace? (text : List Char) (found : Found) (value : Option Value) : Checked (List Char) :=
  match value.bind Value.fillText?, found.default with
  | some shown, _ => some shown.toList
  | none, some default => defaultText? (trim default)
  | none, none => takeBytes? found.size text

section

variable {σ : Type} (lookup : String → StateM σ (Option Value))

/-- What one step writes for the first character of a text and what belongs to
it, and how many bytes that takes. -/
def piece? (c : Char) (text : List Char) (state : σ) : Checked ((List Char × Nat) × σ) :=
  if c = '\\' then do
    let behind ← dropBytes? 1 text
    match behind.head?.bind Template.meaning? with
    | some meaning => return (([meaning], 2), state)
    | none => return ((['\\'], 1), state)
  else if c = '[' then do
    match ← placeholder? text with
    | some found =>
        let (value, after) := (lookup (String.ofList found.path)).run state
        let shown ← replace? text found value
        return ((shown, found.size), after)
    | none => return ((['['], 1), state)
  else some (([c], c.utf8Size), state)

variable {lookup}

/-- Every step takes at least one byte. -/
theorem piece?_pos {c : Char} {text written : List Char} {size : Nat} {state after : σ}
    (h : piece? lookup c text state = some ((written, size), after)) : 0 < size := by
  rw [piece?] at h
  split at h
  · obtain ⟨behind, -, h⟩ := Option.bind_eq_some_iff.1 h
    split at h
    · cases h
      decide
    · cases h
      decide
  · split at h
    · obtain ⟨found?, hfound, h⟩ := Option.bind_eq_some_iff.1 h
      cases found? with
      | none =>
          cases h
          decide
      | some found =>
          obtain ⟨shown, -, h⟩ := Option.bind_eq_some_iff.1 h
          cases h
          exact Nat.succ_pos found.close
    · cases h
      exact c.utf8Size_pos

variable (lookup)

/-- The text that a body stands for. Looking up a path may have an effect. -/
def interpolate? (text : List Char) (state : σ) : Checked (List Char × σ) :=
  match text with
  | [] => some ([], state)
  | c :: behind =>
      match _hpiece : piece? lookup c (c :: behind) state with
      | none => none
      | some ((written, size), after) =>
          match _hrest : dropBytes? size (c :: behind) with
          | none => none
          | some rest => (interpolate? rest after).map (Prod.map (written ++ ·) id)
termination_by byteSize text
decreasing_by
  have hpositive := piece?_pos _hpiece
  have hsize := byteSize_of_dropBytes? _hrest
  omega

variable {lookup}

/-- One step takes a part from the text. -/
theorem interpolate?_of_piece {c : Char} {behind part rest written : List Char} {state after : σ}
    (htext : c :: behind = part ++ rest)
    (hpiece : piece? lookup c (c :: behind) state = some ((written, byteSize part), after)) :
    interpolate? lookup (c :: behind) state =
      (interpolate? lookup rest after).map (Prod.map (written ++ ·) id) := by
  have hrest : dropBytes? (byteSize part) (c :: behind) = some rest := by
    rw [htext, dropBytes?_append]
  rw [interpolate?]
  split
  · next hnone =>
    rw [hpiece] at hnone
    cases hnone
  · next found size next hfound =>
    rw [hpiece] at hfound
    cases hfound
    split
    · next hnone =>
      rw [hrest] at hnone
      cases hnone
    · next others hothers =>
      rw [hrest] at hothers
      cases hothers
      rfl

end

theorem pathEnd?_of_point {bytes : List UInt8} {offset : Nat} (h : at? bytes offset = some '.') :
    pathEnd? bytes offset = (segmentEnd? bytes (offset + 1)).bind fun
      | none => some offset
      | some stop => pathEnd? bytes stop := by
  rw [pathEnd?, dif_pos h]
  split
  · next hsegment => rw [hsegment]; rfl
  · next hsegment => rw [hsegment]; rfl
  · next stop hsegment => rw [hsegment]; rfl

theorem pathEnd?_of_ne {bytes : List UInt8} {offset : Nat} (h : at? bytes offset ≠ some '.') :
    pathEnd? bytes offset = some offset := by
  rw [pathEnd?, dif_neg h]

theorem isAsciiTest_isGap : IsAsciiTest isGap := by
  refine isAsciiTest_of fun c h => ?_
  simp only [isGap, Bool.or_eq_true, beq_iff_eq] at h
  rcases h with (((rfl | rfl) | rfl) | rfl) | rfl
  all_goals decide

theorem leadingName_cons {c : Char} (h : isIdentStart c = true) (rest : List Char) :
    leadingName (c :: rest) = (c :: rest).takeWhile isWordChar := by
  rw [leadingName, if_pos h, List.takeWhile_cons_of_pos (isWordChar_of_isIdentStart h)]

/-- The text up to a closing quote is the part of that size. -/
theorem upToQuote?_eq (rest : List Char) :
    upToQuote? rest = (quoteSize? (fun _ => false) rest).map (rest.take ·) := by
  fun_induction upToQuote? rest with
  | case1 => rfl
  | case2 => rfl
  | case3 c rest ih =>
      rw [quoteSize?, if_neg Bool.false_ne_true, ih, Option.map_map, Option.map_map]
      rfl
  | case4 c rest hquote hpair ih =>
      have hsize : quoteSize? (fun _ => false) (c :: rest) =
          (quoteSize? (fun _ => false) rest).map (· + 1) := by
        by_cases hlone : c = '\\' ∧ rest = []
        · rw [hlone.1, hlone.2]
          rfl
        · rw [quoteSize?]
          · exact hquote
          · exact fun hc hrest => hlone ⟨hc, hrest⟩
          · exact hpair
      rw [ih, hsize, Option.map_map, Option.map_map]
      rfl

section

variable {bytes : List UInt8} {offset : Nat} {rest : List Char} (h : StandsAt bytes offset rest)

include h

theorem nameEnd?_eq : nameEnd? bytes offset =
    some (if leadingName rest = [] then none else some (offset + byteSize (leadingName rest))) := by
  cases rest with
  | nil => rw [nameEnd?, h.at?_nil]; rfl
  | cons c behind =>
      obtain ⟨d, hd, htells⟩ := h.at?_cons
      rw [nameEnd?, hd]
      dsimp only
      rw [htells.condition_eq isAsciiTest_isIdentStart]
      by_cases hstart : isIdentStart c = true
      · have hsome : leadingName (c :: behind) ≠ [] := by
          rw [leadingName, if_pos hstart]
          exact List.cons_ne_nil _ _
        rw [if_pos hstart, if_neg hsome, h.from?_eq]
        simp only [Option.bind_eq_bind, Option.bind_some, takeWhile_asBytes isAsciiTest_isWordChar,
          length_asBytes, leadingName_cons hstart]
        rfl
      · rw [if_neg hstart, leadingName, if_neg hstart, if_pos rfl]

theorem digitsEnd?_eq : digitsEnd? bytes offset =
    if rest.takeWhile Char.isDigit = [] then none
    else some (offset + byteSize (rest.takeWhile Char.isDigit)) := by
  rw [digitsEnd?, h.from?_eq, Option.bind_some]
  simp only [takeWhile_asBytes isAsciiTest_isDigit, length_asBytes]
  cases rest.takeWhile Char.isDigit with
  | nil => rfl
  | cons c others => simp [c.utf8Size_pos]

theorem segmentEnd?_eq : segmentEnd? bytes offset =
    some (if leadingSegment rest = [] then none
      else some (offset + byteSize (leadingSegment rest))) := by
  rw [segmentEnd?, nameEnd?_eq h, leadingSegment]
  by_cases hname : leadingName rest = []
  · rw [if_pos hname, hname]
    simp only [Option.bind_eq_bind, Option.bind_some, digitsEnd?_eq h, List.isEmpty_nil, if_true]
    rfl
  · rw [if_neg hname]
    simp only [Option.bind_eq_bind, Option.bind_some, List.isEmpty_iff, hname, if_false]
    rfl

omit h in
/-- The end of a path is found over bytes as over characters, segment by
segment. A point that no segment follows does not belong to it. -/
theorem pathEnd?_eq {offset : Nat} {rest : List Char} (h : StandsAt bytes offset rest) :
    pathEnd? bytes offset = some (offset + byteSize (leadingSegments rest)) := by
  cases hrest : rest with
  | nil =>
      rw [hrest] at h
      rw [pathEnd?_of_ne (by simp [h.at?_nil]), leadingSegments]
      rfl
  | cons c behind =>
      rw [hrest] at h
      rw [leadingSegments]
      split
      · next hsegment =>
        obtain ⟨rfl, hsome⟩ := hsegment
        have hbehind := h.tail_of_isAscii (by decide)
        have hnext := hbehind.behind_first (leadingSegment_isPrefix behind)
        rw [pathEnd?_of_point ((h.at?_eq_some_iff (by decide)).2 rfl), segmentEnd?_eq hbehind,
          if_neg hsome, Option.bind_some]
        dsimp only
        rw [pathEnd?_eq hnext, byteSize_append, byteSize_cons, utf8Size_of_isAscii (by decide)]
        exact congrArg some (by omega)
      · next hnone =>
        by_cases hpoint : c = '.'
        · subst hpoint
          have hempty : leadingSegment behind = [] := by
            by_contra hsome
            exact hnone ⟨rfl, hsome⟩
          rw [pathEnd?_of_point ((h.at?_eq_some_iff (by decide)).2 rfl),
            segmentEnd?_eq (h.tail_of_isAscii (by decide)), if_pos hempty]
          rfl
        · rw [pathEnd?_of_ne (mt (h.at?_eq_some_iff (by decide)).1 (by simpa using hpoint))]
          rfl
termination_by rest.length
decreasing_by
  simp only [hrest, List.length_drop, List.length_cons]
  omega

/-- The bracket behind a text is found where the text before it is. -/
theorem bracket?_eq :
    bracket? bytes offset = (plainRun? rest).map fun run => offset + byteSize run := by
  have hmark : IsAsciiTest (· == ']') := isAsciiTest_beq (by decide)
  have hrun : (rest.takeWhile fun c => !(c == ']')) = rest.takeWhile (· != ']') := rfl
  have hany : (rest.drop (rest.takeWhile (· != ']')).length).isEmpty = !rest.any (· == ']') := by
    have hdrop : rest.drop (rest.takeWhile (· != ']')).length = rest.dropWhile (· != ']') :=
      List.append_cancel_left ((List.prefix_iff_eq_append.1 (List.takeWhile_prefix _)).trans
        List.takeWhile_append_dropWhile.symm)
    rw [hdrop, Bool.eq_iff_iff, List.isEmpty_iff, List.dropWhile_eq_nil_iff]
    simp
  rw [bracket?, h.from?_eq, Option.bind_some, plainRun?, findIdx?_asBytes hmark, hrun, hany]
  cases rest.any (· == ']') with
  | false => simp
  | true =>
      cases rest.takeWhile (· != ']') with
      | nil => rfl
      | cons c run =>
          have hsome := c.utf8Size_pos
          simp
          omega

/-- The closing quote is found where the text up to it is. -/
theorem quoteEnd?_eq_upToQuote? :
    quoteEnd? bytes (fun _ => false) offset = (upToQuote? rest).map (offset + byteSize ·) := by
  rw [quoteEnd?_eq (fun _ _ _ _ => rfl) h, upToQuote?_eq, Option.map_map]
  rfl

/-- A default in quotes is found where the text of it is, with the bracket
behind it. -/
theorem quotedRun?_eq :
    (if at? bytes offset = some '"' then
      (quoteEnd? bytes (fun _ => false) (offset + 1)).filter fun close =>
        at? bytes close = some ']'
    else none) = (quotedRun? rest).map (offset + byteSize ·) := by
  by_cases hquote : rest.head? = some '"'
  · obtain ⟨behind, rfl⟩ := List.head?_eq_some_iff.1 hquote
    have hbehind := h.tail_of_isAscii (by decide)
    rw [if_pos ((h.at?_eq_some_iff (by decide)).2 hquote), quoteEnd?_eq_upToQuote? hbehind,
      quotedRun?]
    cases hrun : upToQuote? behind with
    | none => rfl
    | some run =>
        have hfirst : run <+: behind := by
          rw [upToQuote?_eq] at hrun
          obtain ⟨size, -, rfl⟩ := Option.map_eq_some_iff.1 hrun
          exact List.take_prefix size behind
        have hclose := (hbehind.behind_first hfirst).at?_eq_some_iff (show IsAscii ']' by decide)
        simp only [Option.map_some, Option.filter_some, hclose, decide_eq_true_eq,
          Option.bind_eq_bind, Option.bind_some]
        split
        · rw [Option.map_some, byteSize_cons, utf8Size_of_isAscii (by decide), Nat.add_assoc]
        · rfl
  · have hnone : quotedRun? rest = none := by
      unfold quotedRun?
      split
      · exact absurd rfl hquote
      · rfl
    rw [if_neg (mt (h.at?_eq_some_iff (by decide)).1 hquote), hnone]
    rfl

/-- The default is found where the text of it is. -/
theorem defaultRange?_eq :
    defaultRange? bytes offset (offset + byteSize (rest.takeWhile isGap)) =
      (gapAndDefault? rest).map fun (gap, run) =>
        (offset + byteSize gap, offset + byteSize gap + byteSize run) := by
  have hbody := h.behind_first (List.takeWhile_prefix isGap)
  rw [defaultRange?, gapAndDefault?]
  generalize hdrop : rest.drop (rest.takeWhile isGap).length = body at hbody ⊢
  dsimp only
  rw [quotedRun?_eq hbody]
  cases quotedRun? body with
  | some run => rfl
  | none =>
      simp only [Option.map_none, hbody.at?_eq_some_iff (show IsAscii ']' by decide)]
      split
      · rw [bracket?_eq h, Option.map_map, Option.map_map]
        rfl
      · rw [bracket?_eq hbody, Option.map_map, Option.map_map]
        rfl

/-- A default behind a question mark is found where the text of it is. -/
theorem markedDefault?_of_mark {behind : List Char}
    (hmark : rest.drop (rest.takeWhile isGap).length = '?' :: behind) :
    markedDefault? bytes offset = (gapAndDefault? behind).map fun (gap, run) =>
      (offset + byteSize (rest.takeWhile isGap) + 1 + byteSize gap,
        offset + byteSize (rest.takeWhile isGap) + 1 + byteSize gap + byteSize run) := by
  have hquestion := h.behind_first (List.takeWhile_prefix isGap)
  rw [hmark] at hquestion
  have hbehind := hquestion.tail_of_isAscii (by decide)
  rw [markedDefault?, h.countWhile_eq isAsciiTest_isGap]
  dsimp only
  rw [if_pos ((hquestion.at?_eq_some_iff (by decide)).2 rfl),
    hbehind.countWhile_eq isAsciiTest_isGap, defaultRange?_eq hbehind]

theorem markedDefault?_of_ne
    (hnone : (rest.drop (rest.takeWhile isGap).length).head? ≠ some '?') :
    markedDefault? bytes offset = none := by
  have hquestion := h.behind_first (List.takeWhile_prefix isGap)
  rw [markedDefault?, h.countWhile_eq isAsciiTest_isGap]
  exact if_neg (mt (hquestion.at?_eq_some_iff (by decide)).1 hnone)

end

def foundAs (value : Placeholder) : Found :=
  ⟨byteSize value.written - 1, value.path.toList, value.default⟩

/-- The path behind a bracket ends at the same place. -/
theorem pathEnd?_leadingPath {text : List Char} (hname : leadingName text ≠ []) :
    pathEnd? (encode ('[' :: text)) (1 + byteSize (leadingName text)) =
      some (1 + byteSize (leadingPath text)) := by
  have h : StandsAt (encode ('[' :: text)) 1 text := .of_append ['['] text
  rw [pathEnd?_eq (h.behind_first (leadingName_isPrefix text)), leadingPath,
    if_neg (by simpa using hname), byteSize_append, Nat.add_assoc]

theorem size_foundAs {value : Placeholder} (h : value.written ≠ []) :
    (foundAs value).size = byteSize value.written := by
  obtain ⟨c, others, hcons⟩ := List.exists_cons_of_ne_nil h
  have hsome := c.utf8Size_pos
  rw [Found.size, foundAs, hcons, byteSize_cons]
  dsimp only
  omega

theorem foundAs_bare (path : List Char) :
    foundAs ⟨'[' :: path ++ [']'], String.ofList path, none⟩ = ⟨1 + byteSize path, path, none⟩ := by
  simp only [foundAs, List.cons_append, byteSize_cons, byteSize_append, byteSize_nil,
    utf8Size_of_isAscii (show IsAscii '[' by decide),
    utf8Size_of_isAscii (show IsAscii ']' by decide), String.toList_ofList]
  rfl

section

variable (path gap inner run : List Char)

/-- What a placeholder is written with in front of its default. -/
theorem byteSize_beforeDefault : byteSize ('[' :: (path ++ (gap ++ '?' :: inner))) =
    1 + byteSize path + byteSize gap + 1 + byteSize inner := by
  simp only [byteSize_cons, byteSize_append, utf8Size_of_isAscii (show IsAscii '[' by decide),
    utf8Size_of_isAscii (show IsAscii '?' by decide)]
  omega

/-- The sizes of a placeholder with a default, part by part: its brackets, its
path, the gaps around the mark, and the default with its quotes. -/
theorem foundAs_defaulted :
    foundAs ⟨'[' :: path ++ gap ++ '?' :: inner ++ run ++ [']'], String.ofList path, some run⟩ =
      ⟨1 + byteSize path + byteSize gap + 1 + byteSize inner + byteSize run, path, some run⟩ := by
  have hwritten : '[' :: path ++ gap ++ '?' :: inner ++ run ++ [']'] =
      '[' :: (path ++ (gap ++ '?' :: inner)) ++ (run ++ [']']) := by simp
  have hclose : byteSize [']'] = 1 := rfl
  rw [foundAs, hwritten, byteSize_append, byteSize_beforeDefault, byteSize_append, hclose,
    ← Nat.add_assoc, Nat.add_sub_cancel, String.toList_ofList]

/-- The default is cut out by two offsets, and both lie between characters
whatever the parts in front consist of. -/
theorem slice?_default (rest : List Char) :
    slice? (1 + byteSize path + byteSize gap + 1 + byteSize inner)
        (1 + byteSize path + byteSize gap + 1 + byteSize inner + byteSize run)
        ('[' :: (path ++ (gap ++ '?' :: (inner ++ (run ++ ']' :: rest))))) = some run := by
  have hslice := slice?_append ('[' :: (path ++ (gap ++ '?' :: inner))) run (']' :: rest)
  rw [byteSize_append, byteSize_beforeDefault] at hslice
  simpa using hslice

end

/-- The path stands right behind the opening bracket, so that it is cut out from
the second byte on. -/
theorem slice?_path {path text : List Char} (h : path <+: text) :
    slice? 1 (1 + byteSize path) ('[' :: text) = some path := by
  obtain ⟨after, rfl⟩ := h
  exact slice?_append ['['] path after

/-- Behind a bracket the same placeholder is found, and its parts are cut out of
the text. -/
theorem placeholder?_eq (text : List Char) :
    placeholder? ('[' :: text) = some ((Placeholder.scan? text).map foundAs) := by
  have h : StandsAt (encode ('[' :: text)) 1 text := .of_append ['['] text
  rw [placeholder?, Placeholder.scan?]
  simp only [nameEnd?_eq h]
  by_cases hname : leadingName text = []
  · have hpath : leadingPath text = [] := by rw [leadingPath, hname]; rfl
    rw [if_pos hname, hpath]
    rfl
  · have hne : leadingPath text ≠ [] := by
      rw [leadingPath, if_neg (by simpa using hname)]
      exact List.append_ne_nil_of_left_ne_nil hname _
    obtain ⟨-, hfirst⟩ := isPath_leadingPath hne
    have hafter := h.behind_first hfirst
    have hend := pathEnd?_leadingPath hname
    have hpath := slice?_path hfirst
    have htext := List.prefix_iff_eq_append.1 hfirst
    rw [if_neg hname, if_neg (show ¬(leadingPath text).isEmpty = true by simpa using hne)]
    simp only [Option.bind_eq_bind, Option.bind_some, hend, hpath]
    generalize leadingPath text = path at *
    generalize text.drop path.length = after at *
    simp only [hafter.at?_eq_some_iff (show IsAscii ']' by decide)]
    split
    · rw [Option.map_some, foundAs_bare]
      rfl
    · have hgap : after.takeWhile isGap ++ after.drop (after.takeWhile isGap).length = after :=
        List.prefix_iff_eq_append.1 (List.takeWhile_prefix isGap)
      by_cases hmark : (after.drop (after.takeWhile isGap).length).head? = some '?'
      · obtain ⟨afterMark, hmark⟩ := List.head?_eq_some_iff.1 hmark
        rw [markedDefault?_of_mark hafter hmark, hmark]
        rw [hmark] at hgap
        generalize after.takeWhile isGap = gap at *
        change _ = some (((gapAndDefault? afterMark).bind fun (inner, run) =>
          some (⟨'[' :: path ++ gap ++ '?' :: inner ++ run ++ [']'], String.ofList path, some run⟩ :
            Placeholder)).map foundAs)
        cases hfound : gapAndDefault? afterMark with
        | none => rfl
        | some found =>
            obtain ⟨inner, run⟩ := found
            obtain ⟨rest, -, rfl⟩ := isDefault_of_gapAndDefault? hfound
            have hdefault := slice?_default path gap inner run rest
            rw [hgap, htext] at hdefault
            simp only [Option.map_some, Option.bind_some, hdefault, foundAs_defaulted]
            rfl
      · rw [markedDefault?_of_ne hafter hmark]
        dsimp only
        split
        · next afterMark hbehind =>
          rw [hbehind] at hmark
          exact absurd rfl hmark
        · rfl

/-- A text that has a mark of ASCII at both ends is cut out between them. If the
marks overlap, all of it is ASCII and too short in bytes as well. -/
theorem unmarked?_eq {mark : List Char} (hmark : ∀ c ∈ mark, IsAscii c) (text : List Char) :
    unmarked? mark text = some (betweenMarks? mark text) := by
  rw [unmarked?, betweenMarks?, byteSize_of_isAscii hmark]
  by_cases hends : mark <+: text ∧ mark <:+ text
  · obtain ⟨⟨behind, rfl⟩, hsuffix⟩ := hends
    simp only [List.isPrefixOf_iff_prefix, List.prefix_append, List.isSuffixOf_iff_suffix, hsuffix,
      and_true, byteSize_append, byteSize_of_isAscii hmark, List.length_append]
    rcases Nat.lt_or_ge behind.length mark.length with hshort | hlong
    · have hbehind : behind <:+ mark :=
        List.suffix_of_suffix_length_le (List.suffix_append mark behind) hsuffix
          (Nat.le_of_lt hshort)
      have hsize : byteSize behind = behind.length :=
        byteSize_of_isAscii fun c hc => hmark c (hbehind.subset hc)
      rw [if_neg (by omega), if_neg (by omega)]
    · obtain ⟨inner, rfl⟩ :=
        List.suffix_of_suffix_length_le hsuffix (List.suffix_append mark behind) hlong
      have hslice := slice?_append mark inner mark
      rw [byteSize_append, byteSize_of_isAscii hmark] at hslice
      simp only [byteSize_append, byteSize_of_isAscii hmark, List.length_append]
      have hstop : mark.length + (byteSize inner + mark.length) - mark.length =
        mark.length + byteSize inner := by omega
      have hsize : mark.length + (inner.length + mark.length) - 2 * mark.length =
        inner.length := by omega
      rw [if_pos (by omega), if_pos (by omega), hstop, hslice, hsize, List.drop_left,
        List.take_left]
      rfl
  · have hno (size : Prop) :
        ¬(size ∧ mark.isPrefixOf text = true ∧ mark.isSuffixOf text = true) := by
      rw [List.isPrefixOf_iff_prefix, List.isSuffixOf_iff_suffix]
      exact fun h => hends h.2
    rw [if_neg (hno _), if_neg (hno _)]

/-- The text of a default is the same whether its marks are cut off by bytes or
by characters. -/
theorem defaultText?_eq (default : List Char) :
    defaultText? (trim default) = some (defaultText default) := by
  rw [defaultText?, defaultText, unmarked?_eq (by decide), unmarked?_eq (by decide)]
  simp only [Option.bind_eq_bind, Option.bind_some]
  cases betweenMarks? ['\\', '"'] (trim default) with
  | some inner => rfl
  | none =>
      cases betweenMarks? ['"'] (trim default) with
      | some inner => rfl
      | none => rfl

theorem isAscii_of_meaning {c meaning : Char} (h : Template.meaning? c = some meaning) :
    IsAscii c := by
  unfold Template.meaning? Placeholder.meaning? at h
  split at h
  · next hbracket =>
    rcases hbracket with rfl | rfl
    · decide
    · decide
  · split at h
    all_goals first
      | decide
      | cases h

/-- What stands for a placeholder is put together of what was cut out of the
text. -/
theorem replace?_eq (value : Placeholder) (rest : List Char) (hwritten : value.written ≠ [])
    (found : Option Value) :
    replace? (value.written ++ rest) (foundAs value) found = some (value.shows found) := by
  rw [replace?, size_foundAs hwritten, takeBytes?_append, ← value.fill_fillText? found]
  unfold Placeholder.fill
  rw [foundAs]
  cases found.bind Value.fillText? with
  | some text => rfl
  | none =>
      cases value.default with
      | some default => exact defaultText?_eq default
      | none => rfl

section

variable {σ : Type} (lookup : String → StateM σ (Option Value))

/-- One step over bytes does what the first piece of a text shows, and takes the
bytes that the piece was written with. -/
theorem piece?_of_splits {text : List Char} {piece : TemplatePiece} {pieces : List TemplatePiece}
    (h : Template.Splits text (piece :: pieces)) (state : σ) :
    ∃ c behind rest, text = c :: behind ∧ c :: behind = piece.written ++ rest ∧
      Template.Splits rest pieces ∧
      piece? lookup c (c :: behind) state =
        let (shown, after) := (piece.showsBy lookup).run state
        some ((shown, byteSize piece.written), after) := by
  cases h with
  | @escape c meaning rest _ hmeaning hrest =>
      refine ⟨'\\', c :: rest, rest, rfl, rfl, hrest, ?_⟩
      have hdrop : dropBytes? 1 ('\\' :: c :: rest) = some (c :: rest) :=
        dropBytes?_append ['\\'] (c :: rest)
      have hsize : byteSize ['\\', c] = 2 := by
        rw [byteSize_cons, byteSize_cons, utf8Size_of_isAscii (isAscii_of_meaning hmeaning)]
        rfl
      rw [piece?, if_pos rfl, hdrop, TemplatePiece.written, hsize]
      simp only [Option.bind_eq_bind, Option.bind_some, List.head?_cons, hmeaning]
      rfl
  | @placeholder value rest _ hstands hrest =>
      obtain ⟨text, htext, hscan, -⟩ := hstands.found
      have hne : value.written ≠ [] := by
        cases hstands <;> exact List.cons_ne_nil _ _
      have hpath : String.ofList (foundAs value).path = value.path := String.ofList_toList
      refine ⟨'[', text, rest, htext, htext.symm, hrest, ?_⟩
      rw [piece?, if_neg (by decide), if_pos rfl, placeholder?_eq, hscan]
      simp only [Option.map_some, Option.bind_eq_bind, Option.bind_some, hpath, ← htext,
        replace?_eq value rest hne, size_foundAs hne]
      rfl
  | @backslash rest _ hescape hrest =>
      refine ⟨'\\', rest, rest, rfl, rfl, hrest, ?_⟩
      have hdrop : dropBytes? 1 ('\\' :: rest) = some rest := dropBytes?_append ['\\'] rest
      have hnone : rest.head?.bind Template.meaning? = none := Option.bind_eq_none_iff.2 hescape
      rw [piece?, if_pos rfl, hdrop]
      simp only [Option.bind_eq_bind, Option.bind_some, hnone]
      rfl
  | @bracket rest _ hstands hrest =>
      refine ⟨'[', rest, rest, rfl, rfl, hrest, ?_⟩
      rw [piece?, if_neg (by decide), if_pos rfl, placeholder?_eq,
        Placeholder.scan?_eq_none_iff.2 hstands]
      rfl
  | @ordinary c rest _ hbackslash hbracket hrest =>
      refine ⟨c, rest, rest, rfl, rfl, hrest, ?_⟩
      rw [piece?, if_neg hbackslash, if_neg hbracket]
      rfl

/-- The pass over bytes shows the pieces one after the other. -/
theorem interpolate?_of_splits {text : List Char} {pieces : List TemplatePiece}
    (h : Template.Splits text pieces) (state : σ) :
    interpolate? lookup text state =
      let (shown, after) := (pieces.mapM (TemplatePiece.showsBy lookup)).run state
      some (shown.flatten, after) := by
  induction pieces generalizing text state with
  | nil =>
      cases h
      rw [interpolate?]
      rfl
  | cons piece pieces ih =>
      obtain ⟨c, behind, rest, rfl, htext, hrest, hpiece⟩ := piece?_of_splits lookup h state
      rw [interpolate?_of_piece htext hpiece, ih hrest, List.mapM_cons]
      rfl

/-- The pass over bytes makes the same lookups and puts together the same
text. -/
theorem interpolate?_eq (text : List Char) (state : σ) :
    interpolate? lookup text state = some ((Template.interpolate lookup text).run state) := by
  have hsplits : Template.Splits text (Template.piecesOf text) := Template.splits_iff.2 rfl
  rw [interpolate?_of_splits lookup hsplits, hsplits.interpolate_eq]
  rfl

end

end ConfigNotation.Bytes
