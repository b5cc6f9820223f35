import Mathlib
import Unnest.Json.Reader
import Unnest.Json.Writer
import Unnest.Proofs.Json.Inside

/-! Written text is read as the value that was written, in every layout and with any
characters in strings and keys, exactly as deep as the reader goes. Values with numbers in
them are left out: the writer copies their literals as they are. -/

namespace Unnest.Json

/-- Nowhere in the value stands a number. -/
inductive NumberFree : Json → Prop where
  | null : NumberFree .null
  | boolean (value : Bool) : NumberFree (.boolean value)
  | string (text : String) : NumberFree (.string text)
  | array {items : List Json} (all : ∀ item ∈ items, NumberFree item) : NumberFree (.array items)
  | object {members : List (String × Json)} (all : ∀ member ∈ members, NumberFree member.2) :
      NumberFree (.object members)

section Strings

theorem hexValue_hexDigit : ∀ n < 16, hexValue (hexDigit n) = some n := by decide

/-- The escape of a control character stands for that character. -/
theorem escape_control {c : Char} (control : c < ' ') (rest : List Char) :
    escape ('u' :: '0' :: '0' :: hexDigit (c.toNat / 16) :: hexDigit (c.toNat % 16) :: rest) =
      some (c, rest) := by
  have small : c.toNat < 32 := control
  have unit : codeUnit ('0' :: '0' :: hexDigit (c.toNat / 16) :: hexDigit (c.toNat % 16) :: rest) =
      some (c.toNat, rest) := by
    have zero : hexValue '0' = some 0 := rfl
    have high := hexValue_hexDigit (c.toNat / 16) (by omega)
    have low := hexValue_hexDigit (c.toNat % 16) (by omega)
    have whole : ((0 * 16 + 0) * 16 + c.toNat / 16) * 16 + c.toNat % 16 = c.toNat := by omega
    simp only [codeUnit, zero, high, low, Option.bind_eq_bind, Option.bind_some, whole]
  have notHigh : ¬ (0xd800 ≤ c.toNat ∧ c.toNat < 0xdc00) := by omega
  have notLow : ¬ (0xdc00 ≤ c.toNat ∧ c.toNat < 0xe000) := by omega
  simp only [escape, unicodeEscape, unit, Option.bind_eq_bind, Option.bind_some, if_neg notHigh,
    if_neg notLow, Char.ofNat_toNat]

theorem stringBody_backslash (limit : Nat) (reversed rest : List Char) :
    stringBody (limit + 1) reversed ('\\' :: rest) =
      match escape rest with
      | some (escaped, rest) => stringBody limit (escaped :: reversed) rest
      | none => none := rfl

/-- A string's reader takes in a character by its written form. -/
theorem stringBody_writeChar (c : Char) (limit : Nat) (reversed rest : List Char) :
    stringBody (limit + 1) reversed (writeChar c ++ rest) =
      stringBody limit (c :: reversed) rest := by
  unfold writeChar
  split_ifs with quote backslash backspace tab newline feed carriage control
  case pos => subst quote; rfl
  case pos => subst backslash; rfl
  case pos => subst backspace; rfl
  case pos => subst tab; rfl
  case pos => subst newline; rfl
  case pos => subst feed; rfl
  case pos => subst carriage; rfl
  case pos =>
    rw [List.cons_append, stringBody_backslash, List.cons_append, List.cons_append, List.cons_append,
      List.cons_append, List.cons_append, List.nil_append, escape_control control]
  case neg =>
    simp only [List.cons_append, List.nil_append, stringBody]
    rw [if_neg quote, if_neg backslash, if_neg control]

theorem stringBody_written (characters rest : List Char) (limit : Nat) (reversed : List Char)
    (room : characters.length < limit) :
    stringBody limit reversed (characters.flatMap writeChar ++ '"' :: rest) =
      some (String.ofList (reversed.reverse ++ characters), rest) := by
  induction characters generalizing limit reversed with
  | nil =>
    rcases limit with _ | limit
    · exact absurd room (Nat.not_lt_zero _)
    · rw [List.append_nil]
      rfl
  | cons c others ih =>
    rcases limit with _ | limit
    · exact absurd room (Nat.not_lt_zero _)
    · have fewer : others.length < limit := Nat.lt_of_succ_lt_succ room
      rw [List.flatMap_cons, List.append_assoc, stringBody_writeChar, ih limit _ fewer,
        List.reverse_cons, List.append_assoc, List.singleton_append]

theorem writeChar_ne_nil (c : Char) : writeChar c ≠ [] := by
  unfold writeChar
  split_ifs <;> exact List.cons_ne_nil _ _

/-- A written string is no shorter than the string. -/
theorem length_le_writeChars (characters : List Char) :
    characters.length ≤ (characters.flatMap writeChar).length := by
  induction characters with
  | nil => exact Nat.le_refl _
  | cons c others ih =>
    have some : 0 < (writeChar c).length := List.length_pos_iff.2 (writeChar_ne_nil c)
    rw [List.flatMap_cons, List.length_append, List.length_cons]
    omega

theorem toList_writeString (text : String) :
    (writeString text).toList = '"' :: (text.toList.flatMap writeChar ++ ['"']) := by
  rw [writeString, String.toList_ofList, List.cons_append]

/-- The reader of a string's inside finds the string and what stands behind it. -/
theorem stringBody_writeString (text : String) (limit : Nat) (rest : List Char)
    (room : (writeString text).toList.length ≤ limit) :
    stringBody limit [] (text.toList.flatMap writeChar ++ '"' :: rest) = some (text, rest) := by
  have longer := length_le_writeChars text.toList
  rw [toList_writeString, List.length_cons, List.length_append] at room
  rw [stringBody_written _ _ _ _ (by omega), List.reverse_nil, List.nil_append, String.ofList_toList]

end Strings

section Blank

/-- Nothing but blank characters. -/
def Blank (characters : List Char) : Prop := ∀ c ∈ characters, isSpace c = true

theorem skipSpace_blank {blank : List Char} (allBlank : Blank blank) (rest : List Char) :
    skipSpace (blank ++ rest) = skipSpace rest :=
  List.dropWhile_append_of_pos allBlank

theorem skipSpace_cons {c : Char} (visible : isSpace c = false) (rest : List Char) :
    skipSpace (c :: rest) = c :: rest := by
  rw [skipSpace, List.dropWhile_cons_of_neg (Bool.eq_false_iff.1 visible)]

theorem blank_lineBreak (layout : Layout) : Blank layout.lineBreak.toList := by
  intro c member
  cases layout with
  | compact => simp [Layout.lineBreak] at member
  | indented level =>
    simp only [Layout.lineBreak, String.toList_append, String.toList_ofList] at member
    rcases List.mem_append.1 member with first | indent
    · have same : c = '\n' := by simpa using first
      subst same
      rfl
    · rw [(List.mem_replicate.1 indent).2]
      rfl

end Blank

section Series

variable {α : Type} {item : List Char → Option (α × List Char)} {close : Char}

/-- The items behind the first one, each after a comma and a line break. -/
def separated (written : α → List Char) (gap : List Char) (others : List α) : List Char :=
  others.flatMap fun other => ',' :: (gap ++ written other)

/-- A series is read item by item, and as a whole exactly when each item can be read. -/
theorem series_written {written : α → List Char} {fits : α → Bool} {gap closing : List Char}
    (gapBlank : Blank gap) (closingBlank : Blank closing) (visible : isSpace close = false)
    (apart : close ≠ ',') {first : α} {others : List α} {count : Nat} {lead : List Char}
    (leadBlank : Blank lead) (room : others.length < count) (rest : List Char)
    (reads : ∀ thing ∈ first :: others, ∀ after, item (skipSpace (written thing ++ after)) =
      if fits thing then some (thing, after) else none) :
    series item close count
        (lead ++ (written first ++ (separated written gap others ++ (closing ++ close :: rest)))) =
      if (first :: others).all fits then some (first :: others, rest) else none := by
  induction others generalizing first count lead with
  | nil =>
    rcases count with _ | count
    · exact absurd room (Nat.not_lt_zero _)
    · rw [series, skipSpace_blank leadBlank, reads first (List.mem_singleton_self _)]
      by_cases good : fits first = true
      · simp [good, separated, skipSpace_blank closingBlank, skipSpace_cons visible, apart]
      · simp [good]
  | cons second others ih =>
    rcases count with _ | count
    · exact absurd room (Nat.not_lt_zero _)
    · have comma : isSpace ',' = false := rfl
      have fewer : others.length < count := Nat.lt_of_succ_lt_succ room
      have later := @ih second count gap gapBlank fewer fun thing member =>
        reads thing (List.mem_cons_of_mem _ member)
      rw [series, skipSpace_blank leadBlank, reads first (List.mem_cons_self ..)]
      by_cases good : fits first = true
      · rw [if_pos good, separated, List.flatMap_cons, ← separated, List.cons_append,
          List.cons_append, Option.bind_eq_bind, Option.bind_some]
        dsimp only
        rw [skipSpace_cons comma]
        dsimp only
        rw [if_pos rfl, List.append_assoc, List.append_assoc, later, List.all_cons (a := first), good,
          Bool.true_and]
        split <;> rfl
      · simp [good]

/-- Between brackets stands a series. -/
theorem bracketed_written {written : α → List Char} (fits : α → Bool) {gap closing : List Char}
    (gapBlank : Blank gap) (closingBlank : Blank closing) (visible : isSpace close = false)
    (apart : close ≠ ',') {first : α} {others : List α} {count : Nat} (room : others.length < count)
    (rest : List Char)
    (begins : ∃ c more, written first = c :: more ∧ isSpace c = false ∧ c ≠ close)
    (reads : ∀ thing ∈ first :: others, ∀ after, item (skipSpace (written thing ++ after)) =
      if fits thing then some (thing, after) else none) :
    bracketed item close count
        (gap ++ (written first ++ (separated written gap others ++ (closing ++ close :: rest)))) =
      if (first :: others).all fits then some (first :: others, rest) else none := by
  have read := series_written gapBlank closingBlank visible apart (List.forall_mem_nil _) room rest reads
  rcases begins with ⟨c, more, same, shown, open_⟩
  rw [List.nil_append] at read
  rw [bracketed, skipSpace_blank gapBlank]
  rw [same, List.cons_append] at read ⊢
  rw [skipSpace_cons shown]
  dsimp only
  rw [if_neg open_, read]

theorem length_le_separated (written : α → List Char) (gap : List Char) (others : List α) :
    others.length ≤ (separated written gap others).length := by
  induction others with
  | nil => exact Nat.le_refl _
  | cons other others ih =>
    rw [separated, List.flatMap_cons, ← separated, List.length_append]
    simp only [List.length_cons]
    omega

theorem length_written_le (written : α → List Char) (gap : List Char) {others : List α} {other : α}
    (member : other ∈ others) : (written other).length ≤ (separated written gap others).length := by
  induction others with
  | nil => cases member
  | cons first others ih =>
    rw [separated, List.flatMap_cons, ← separated, List.length_append]
    simp only [List.length_cons, List.length_append]
    rcases List.mem_cons.1 member with same | later
    · subst same
      omega
    · have := ih later
      omega

/-- A limit on the whole text is a limit on how many items there are and how long each is. -/
theorem room_inside {written : α → List Char} {gap lead tail : List Char} {first : α}
    {others : List α} {limit : Nat}
    (room : (lead ++ (written first ++ (separated written gap others ++ tail))).length < limit) :
    others.length < limit ∧ ∀ thing ∈ first :: others, (written thing).length < limit := by
  have few := length_le_separated written gap others
  simp only [List.length_append] at room
  refine ⟨by omega, fun thing member => ?_⟩
  rcases List.mem_cons.1 member with same | later
  · subst same
    omega
  · have short := length_written_le written gap later
    omega

end Series

section Values

/-- The characters of a value's text. -/
def chars (layout : Layout) (value : Json) : List Char := (value.write layout).toList

/-- The characters of a key with its value. -/
def memberChars (layout : Layout) (member : String × Json) : List Char :=
  (writeString member.1).toList ++ (layout.colon.toList ++ chars layout member.2)

theorem chars_null (layout : Layout) : chars layout .null = ['n', 'u', 'l', 'l'] :=
  String.toList_ofList

theorem chars_true (layout : Layout) : chars layout (.boolean true) = ['t', 'r', 'u', 'e'] :=
  String.toList_ofList

theorem chars_false (layout : Layout) :
    chars layout (.boolean false) = ['f', 'a', 'l', 's', 'e'] := String.toList_ofList

theorem chars_string (layout : Layout) (text : String) : chars layout (.string text) =
    '"' :: (text.toList.flatMap writeChar ++ ['"']) := toList_writeString text

theorem chars_array_nil (layout : Layout) : chars layout (.array []) = ['[', ']'] :=
  String.toList_ofList

theorem chars_object_nil (layout : Layout) : chars layout (.object []) = ['\x7b', '\x7d'] :=
  String.toList_ofList

theorem toList_writeItems (layout : Layout) (items : List Json) :
    (writeItems layout items).toList = separated (chars layout) layout.lineBreak.toList items := by
  induction items with
  | nil => rfl
  | cons first rest ih =>
    simp only [writeItems, String.toList_append, ih, List.append_assoc]
    rw [separated, separated, List.flatMap_cons, List.cons_append, List.append_assoc]
    rfl

theorem toList_writeMembers (layout : Layout) (members : List (String × Json)) :
    (writeMembers layout members).toList =
      separated (memberChars layout) layout.lineBreak.toList members := by
  induction members with
  | nil => rfl
  | cons first rest ih =>
    rcases first with ⟨key, value⟩
    simp only [writeMembers, String.toList_append, ih, List.append_assoc]
    rw [separated, separated, List.flatMap_cons, List.cons_append, List.append_assoc, memberChars,
      List.append_assoc, List.append_assoc]
    rfl

theorem chars_array (layout : Layout) (first : Json) (rest : List Json) :
    chars layout (.array (first :: rest)) = '[' :: (layout.deeper.lineBreak.toList ++
      (chars layout.deeper first ++ (separated (chars layout.deeper) layout.deeper.lineBreak.toList rest ++
        (layout.lineBreak.toList ++ [']'])))) := by
  simp only [chars, write, String.toList_append, toList_writeItems, List.append_assoc]
  rfl

theorem colon_deeper (layout : Layout) : layout.deeper.colon = layout.colon := by
  cases layout <;> rfl

theorem chars_object (layout : Layout) (first : String × Json) (rest : List (String × Json)) :
    chars layout (.object (first :: rest)) = '\x7b' :: (layout.deeper.lineBreak.toList ++
      (memberChars layout.deeper first ++
        (separated (memberChars layout.deeper) layout.deeper.lineBreak.toList rest ++
          (layout.lineBreak.toList ++ ['\x7d'])))) := by
  rcases first with ⟨key, value⟩
  simp only [chars, memberChars, write, String.toList_append, toList_writeMembers, List.append_assoc,
    colon_deeper]
  rfl

/-- A value's text begins with a character that is neither blank nor a closing bracket. -/
theorem NumberFree.chars_eq_cons {value : Json} (plain : NumberFree value) (layout : Layout) :
    ∃ c others, chars layout value = c :: others ∧ isSpace c = false ∧ c ≠ ']' := by
  cases plain with
  | null => exact ⟨_, _, chars_null layout, rfl, by decide⟩
  | boolean truth =>
    cases truth with
    | false => exact ⟨_, _, chars_false layout, rfl, by decide⟩
    | true => exact ⟨_, _, chars_true layout, rfl, by decide⟩
  | string text => exact ⟨_, _, chars_string layout text, rfl, by decide⟩
  | @array items all =>
    cases items with
    | nil => exact ⟨_, _, chars_array_nil layout, rfl, by decide⟩
    | cons first rest => exact ⟨_, _, chars_array layout first rest, rfl, by decide⟩
  | @object members all =>
    cases members with
    | nil => exact ⟨_, _, chars_object_nil layout, rfl, by decide⟩
    | cons first rest => exact ⟨_, _, chars_object layout first rest, rfl, by decide⟩

theorem memberChars_eq_cons (layout : Layout) (member : String × Json) :
    ∃ others, memberChars layout member = '"' :: others := by
  rw [memberChars, toList_writeString]
  exact ⟨_, rfl⟩

theorem skipSpace_chars {value : Json} (plain : NumberFree value) (layout : Layout) (rest : List Char) :
    skipSpace (chars layout value ++ rest) = chars layout value ++ rest := by
  rcases plain.chars_eq_cons layout with ⟨c, others, same, visible, _⟩
  rw [same, List.cons_append, skipSpace_cons visible]

theorem skipSpace_memberChars (layout : Layout) (member : String × Json) (rest : List Char) :
    skipSpace (memberChars layout member ++ rest) = memberChars layout member ++ rest := by
  rcases memberChars_eq_cons layout member with ⟨others, same⟩
  have visible : isSpace '"' = false := rfl
  rw [same, List.cons_append, skipSpace_cons visible]

theorem length_chars_le_memberChars (layout : Layout) (member : String × Json) :
    (chars layout member.2).length ≤ (memberChars layout member).length := by
  simp only [memberChars, List.length_append]
  omega

/-- What is neither an array nor an object is read the same at every depth. -/
theorem value_scalar {c : Char} (limit depth : Nat) (rest : List Char) (list : c ≠ '[')
    (record : c ≠ '\x7b') : value limit depth (c :: rest) = scalar limit (c :: rest) := by
  cases depth with
  | zero => rfl
  | succ depth =>
    rw [value]
    · simp [list]
    · simp [record]

/-- The reader of a member finds the key, the value and what stands behind them. -/
theorem memberOf_written {layout : Layout} {member : String × Json} (plain : NumberFree member.2)
    {limit depth : Nat} (room : (memberChars layout member).length ≤ limit) (rest : List Char)
    (reads : ∀ rest, value limit depth (chars layout member.2 ++ rest) =
      if member.2.depth ≤ depth then some (member.2, rest) else none) :
    memberOf (value limit depth) limit (memberChars layout member ++ rest) =
      if member.2.depth ≤ depth then some (member, rest) else none := by
  have quoted : (writeString member.1).toList.length ≤ limit := by
    rw [memberChars, List.length_append] at room
    omega
  have colon : ∃ gap, Blank gap ∧ layout.colon.toList = ':' :: gap := by
    cases layout with
    | compact => exact ⟨[], List.forall_mem_nil _, rfl⟩
    | indented level => exact ⟨[' '], List.forall_mem_singleton.2 rfl, String.toList_ofList⟩
  rcases colon with ⟨gap, blank, colon⟩
  have visible : isSpace ':' = false := rfl
  rw [memberChars, toList_writeString, colon]
  simp only [List.cons_append, List.append_assoc, List.nil_append, memberOf,
    stringBody_writeString member.1 limit _ quoted, Option.bind_eq_bind, Option.bind_some,
    skipSpace_cons visible, skipSpace_blank blank, skipSpace_chars plain, reads]
  split <;> rfl

theorem value_brackets (limit depth : Nat) (rest : List Char) :
    value limit depth ('[' :: ']' :: rest) = if 1 ≤ depth then some (.array [], rest) else none := by
  cases depth <;> rfl

theorem value_braces (limit depth : Nat) (rest : List Char) :
    value limit depth ('\x7b' :: '\x7d' :: rest) = if 1 ≤ depth then some (.object [], rest) else none := by
  cases depth <;> rfl

/-- The reader finds a written value at this depth and what stands behind it, unless the value
nests deeper. -/
def ReadsBack (limit depth : Nat) (written : Json) : Prop :=
  ∀ layout rest, (chars layout written).length < limit →
    value limit depth (chars layout written ++ rest) =
      if written.depth ≤ depth then some (written, rest) else none

/-- An array is read back one level further down than its items. -/
theorem readsBack_array {limit depth : Nat} {first : Json} {others : List Json}
    (plain : ∀ item ∈ first :: others, NumberFree item)
    (each : ∀ item ∈ first :: others, ReadsBack limit depth item) :
    ReadsBack limit (depth + 1) (.array (first :: others)) := by
  intro layout rest room
  rw [chars_array] at room ⊢
  have inner := room_inside (Nat.lt_of_succ_lt room)
  have reads : ∀ item ∈ first :: others, ∀ after,
      value limit depth (skipSpace (chars layout.deeper item ++ after)) =
        if decide (item.depth ≤ depth) then some (item, after) else none := by
    intro item member after
    rw [skipSpace_chars (plain item member), each item member _ _ (inner.2 item member)]
    simp
  have read := bracketed_written (fun item => decide (item.depth ≤ depth))
    (blank_lineBreak layout.deeper) (blank_lineBreak layout) rfl (by decide) inner.1 rest
    ((plain first (List.mem_cons_self ..)).chars_eq_cons layout.deeper) reads
  have whole : (Json.array (first :: others)).depth ≤ depth + 1 ↔
      itemsDepth (first :: others) ≤ depth := Nat.succ_le_succ_iff
  simp only [List.cons_append, List.append_assoc, List.nil_append, value, read, List.all_eq_true,
    decide_eq_true_eq, whole, itemsDepth_le_iff]
  split <;> rfl

/-- An object is read back one level further down than its values. -/
theorem readsBack_object {limit depth : Nat} {first : String × Json} {others : List (String × Json)}
    (plain : ∀ member ∈ first :: others, NumberFree member.2)
    (each : ∀ member ∈ first :: others, ReadsBack limit depth member.2) :
    ReadsBack limit (depth + 1) (.object (first :: others)) := by
  intro layout rest room
  rw [chars_object] at room ⊢
  have inner := room_inside (Nat.lt_of_succ_lt room)
  have begins : ∃ c more, memberChars layout.deeper first = c :: more ∧ isSpace c = false ∧
      c ≠ '\x7d' := by
    rcases memberChars_eq_cons layout.deeper first with ⟨more, same⟩
    exact ⟨_, more, same, rfl, by decide⟩
  have reads : ∀ thing ∈ first :: others, ∀ after,
      memberOf (value limit depth) limit (skipSpace (memberChars layout.deeper thing ++ after)) =
        if decide (thing.2.depth ≤ depth) then some (thing, after) else none := by
    intro thing member after
    have short := inner.2 thing member
    have shorter := length_chars_le_memberChars layout.deeper thing
    rw [skipSpace_memberChars, memberOf_written (plain thing member) (Nat.le_of_lt short) after
      fun rest => each thing member _ _ (Nat.lt_of_le_of_lt shorter short)]
    simp
  have read := bracketed_written (fun member => decide (member.2.depth ≤ depth))
    (blank_lineBreak layout.deeper) (blank_lineBreak layout) rfl (by decide) inner.1 rest begins reads
  have whole : (Json.object (first :: others)).depth ≤ depth + 1 ↔
      membersDepth (first :: others) ≤ depth := Nat.succ_le_succ_iff
  simp only [List.cons_append, List.append_assoc, List.nil_append, value, read, List.all_eq_true,
    decide_eq_true_eq, whole, membersDepth_le_iff]
  split <;> rfl

/-- Every written value is read back. The induction is on the value; the reader goes down one
level for each array and object. -/
theorem readsBack {written : Json} (plain : NumberFree written) (limit depth : Nat) :
    ReadsBack limit depth written := by
  induction plain generalizing depth with
  | null =>
    intro layout rest _
    have flat : Json.null.depth ≤ depth := Nat.zero_le _
    rw [chars_null, List.cons_append, value_scalar _ _ _ (by decide) (by decide), if_pos flat]
    rfl
  | boolean truth =>
    intro layout rest _
    have flat : (Json.boolean truth).depth ≤ depth := Nat.zero_le _
    cases truth with
    | false =>
      rw [chars_false, List.cons_append, value_scalar _ _ _ (by decide) (by decide), if_pos flat]
      rfl
    | true =>
      rw [chars_true, List.cons_append, value_scalar _ _ _ (by decide) (by decide), if_pos flat]
      rfl
  | string text =>
    intro layout rest room
    have flat : (Json.string text).depth ≤ depth := Nat.zero_le _
    have quoted : (writeString text).toList.length ≤ limit := Nat.le_of_lt room
    rw [chars_string, List.cons_append, value_scalar _ _ _ (by decide) (by decide), if_pos flat,
      scalar, List.append_assoc, List.singleton_append, stringBody_writeString text limit rest quoted]
    rfl
  | @array items all ih =>
    cases items with
    | nil =>
      intro layout rest _
      rw [chars_array_nil]
      exact value_brackets limit depth rest
    | cons first others =>
      cases depth with
      | zero =>
        intro layout rest _
        rw [chars_array, if_neg (by simp [Json.depth])]
        rfl
      | succ depth => exact readsBack_array all fun item member => ih item member depth
  | @object members all ih =>
    cases members with
    | nil =>
      intro layout rest _
      rw [chars_object_nil]
      exact value_braces limit depth rest
    | cons first others =>
      cases depth with
      | zero =>
        intro layout rest _
        rw [chars_object, if_neg (by simp [Json.depth])]
        rfl
      | succ depth => exact readsBack_object all fun member inside => ih member inside depth

/-- A written text, with blank characters behind it or not, is read as the value that was
written, exactly as deep as the reader goes. -/
theorem parse_written {written : Json} (plain : NumberFree written) (layout : Layout) (depth : Nat)
    {text : String} {blank : List Char} (allBlank : Blank blank)
    (same : text.toList = chars layout written ++ blank) :
    parse depth text = if written.depth ≤ depth then some written else none := by
  have room : (chars layout written).length < text.toList.length + 1 := by
    rw [same, List.length_append]
    omega
  have nothing : skipSpace blank = [] := by
    have all := skipSpace_blank allBlank []
    rwa [List.append_nil] at all
  have read := readsBack plain _ depth layout blank room
  rw [← same] at read
  have start : skipSpace text.toList = text.toList := by
    rw [same, skipSpace_chars plain]
  rw [parse, start, read]
  by_cases shallow : written.depth ≤ depth
  · simp [shallow, nothing]
  · simp [shallow]

end Values

end Unnest.Json
