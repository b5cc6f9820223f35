import Unnest.Command.Source
import Unnest.Proofs.Json.ReadBack
import Unnest.Proofs.Script.Decoded

/-! What the command writes as JSON it reads back: a body, a single statement and a block
list, in either layout, exactly if they are no deeper than the reader goes. -/

namespace Unnest.Script

/-- A canonical form has no numbers in it: literals are written as strings. -/
theorem numberFree_encode (part : Part) : part.encode.NumberFree := by
  induction part using Part.induction with
  | nothing =>
    rw [Part.encode]
    exact .null
  | text value =>
    rw [Part.encode]
    exact .string value
  | truth value =>
    rw [Part.encode]
    exact .boolean value
  | list items ih =>
    rw [Part.encode]
    refine .array fun json member => ?_
    rcases List.mem_map.1 member with ⟨item, inside, rfl⟩
    exact ih item inside
  | record part fields isRecord ih =>
    rw [encode_record isRecord]
    refine .object fun entry member => ?_
    rcases List.mem_map.1 member with ⟨field, inside, rfl⟩
    exact ih field inside

theorem decodeList_map {α : Type} {encode : α → Json} {decode : Json → Option α}
    (each : ∀ value, decode (encode value) = some value) (values : List α) :
    decodeList decode (.array (values.map encode)) = some values := by
  rw [decodeList]
  induction values with
  | nil => rfl
  | cons first rest ih =>
    rw [List.map_cons, List.mapM_cons, each, ih]
    rfl

section Bodies

theorem decode_encode (statement : Stmt) : Stmt.decode statement.encode = some statement := by
  have canonical := spells_encode (.statement statement)
  rw [Part.encode] at canonical
  exact decode_of_spells canonical

theorem decodeBody_encodeBody (body : List Stmt) : decodeBody (encodeBody body) = some body := by
  rw [decodeBody, encodeBody, encodeStmts_eq]
  exact decodeList_map decode_encode body

theorem numberFree_statement (statement : Stmt) : statement.encode.NumberFree := by
  have plain := numberFree_encode (.statement statement)
  rwa [Part.encode] at plain

theorem numberFree_encodeBody (body : List Stmt) : (encodeBody body).NumberFree := by
  rw [encodeBody, ← encode_body]
  exact numberFree_encode _

end Bodies

section Blocks

theorem decode_encode_block (block : LabeledBlock) :
    LabeledBlock.decode block.encode = some block := by
  have found : fieldValues LabeledBlock.fields block.encode =
      some [some (.string block.name), some (encodeBody block.statements)] := rfl
  simp only [LabeledBlock.decode, found, required, decodeString, decodeBody_encodeBody,
    Option.bind_eq_bind, Option.bind_some, Option.pure_def]

theorem decodeBlocks_encodeBlocks (blocks : List LabeledBlock) :
    decodeBlocks (encodeBlocks blocks) = some blocks :=
  decodeList_map decode_encode_block blocks

theorem numberFree_encodeBlocks (blocks : List LabeledBlock) : (encodeBlocks blocks).NumberFree := by
  refine .array fun json member => ?_
  rcases List.mem_map.1 member with ⟨block, _, rfl⟩
  refine .object fun entry inside => ?_
  rcases inside with _ | ⟨_, _ | ⟨_, outside⟩⟩
  · exact .string block.name
  · exact numberFree_encodeBody block.statements
  · cases outside

end Blocks

end Unnest.Script

namespace Unnest.Command

open Script

section Read

theorem parse_write {written : Json} (plain : written.NumberFree) (layout : Json.Layout) :
    Json.parse Json.maximalDepth (written.write layout) =
      if written.depth ≤ Json.maximalDepth then some written else none :=
  Json.parse_written plain layout Json.maximalDepth (List.forall_mem_nil _)
    (List.append_nil _).symm

theorem parseBody_encodeBody (body : List Stmt) (layout : Json.Layout) :
    parseBody ((encodeBody body).write layout) =
      if (encodeBody body).depth ≤ Json.maximalDepth then .ok body else .error .invalidJson := by
  rw [parseBody, parse_write (numberFree_encodeBody body)]
  by_cases shallow : (encodeBody body).depth ≤ Json.maximalDepth
  · rw [if_pos shallow, if_pos shallow]
    have decoded := decodeBody_encodeBody body
    rw [encodeBody] at decoded ⊢
    simp only [decoded]
  · rw [if_neg shallow, if_neg shallow]

/-- A single statement is written as an object, so it is not read as a body. -/
theorem parseBody_encode (statement : Stmt) (layout : Json.Layout) :
    parseBody (statement.encode.write layout) =
      if statement.encode.depth ≤ Json.maximalDepth then .ok [statement]
      else .error .invalidJson := by
  rw [parseBody, parse_write (numberFree_statement statement)]
  by_cases shallow : statement.encode.depth ≤ Json.maximalDepth
  · rw [if_pos shallow, if_pos shallow]
    have decoded := decode_encode statement
    rw [statement.encode_slots, statementRecord, record] at decoded ⊢
    simp only [decoded]
  · rw [if_neg shallow, if_neg shallow]

theorem endLine_toList (text : String) :
    ∃ blank, Json.Blank blank ∧ (endLine text).toList = text.toList ++ blank := by
  unfold endLine
  split
  · exact ⟨[], List.forall_mem_nil _, (List.append_nil _).symm⟩
  · exact ⟨['\n'], List.forall_mem_singleton.2 rfl, String.toList_append⟩

theorem parse_renderBlocks (blocks : List LabeledBlock) (pretty : Bool) :
    (Json.parse Json.maximalDepth (renderBlocks blocks .json pretty)).bind decodeBlocks =
      if (encodeBlocks blocks).depth ≤ Json.maximalDepth then some blocks else none := by
  rcases endLine_toList ((encodeBlocks blocks).write (layoutOf pretty)) with ⟨blank, allBlank, same⟩
  rw [renderBlocks, Json.parse_written (numberFree_encodeBlocks blocks) _ _ allBlank same]
  by_cases shallow : (encodeBlocks blocks).depth ≤ Json.maximalDepth
  · rw [if_pos shallow, if_pos shallow, Option.bind_some, decodeBlocks_encodeBlocks]
  · rw [if_neg shallow, if_neg shallow, Option.bind_none]

end Read

/-- What is written for a body, for a single statement and for a block list is read back, in
every layout, unless it is deeper than the reader goes: then it is refused. -/
theorem read_written :
    (∀ (body : List Stmt) (layout : Json.Layout), parseBody ((encodeBody body).write layout) =
      if (encodeBody body).depth ≤ Json.maximalDepth then .ok body else .error .invalidJson) ∧
    (∀ (statement : Stmt) (layout : Json.Layout), parseBody (statement.encode.write layout) =
      if statement.encode.depth ≤ Json.maximalDepth then .ok [statement]
      else .error .invalidJson) ∧
    ∀ (blocks : List LabeledBlock) (pretty : Bool),
      (Json.parse Json.maximalDepth (renderBlocks blocks .json pretty)).bind decodeBlocks =
        if (encodeBlocks blocks).depth ≤ Json.maximalDepth then some blocks else none :=
  ⟨parseBody_encodeBody, parseBody_encode, parse_renderBlocks⟩

end Unnest.Command
