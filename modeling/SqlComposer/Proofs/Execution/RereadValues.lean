import SqlComposer.Proofs.Execution.HandedOutput
import SqlComposer.Wire.Decoding

/-!
# Values that are read again

A connection delivers the values of a result in the types that the database gives them. A text among
them is read once more if the table of the query declares a column of the name under which it stands
with a type that is not textual, whatever the text was selected from. So a result stays as it was
delivered exactly if no value of it is read again, and running a query fails because of a value that
cannot be read only if the connection or a hook says so or a value is read again. The columns at
risk are those of textual types that stand under the name of a declared column of another type.
-/

namespace SqlComposer

/-! ## Values -/

/-- A type that is not textual reads a text as anything but a text. -/
theorem ColumnType.decode_ne_text {type : ColumnType} (other : type.isTextual = false)
    (column content text : String) : type.decode column content ≠ .ok (.text text) := by
  have hdecoded {α : Type} (reason : String) {make : α → Literal} (value : Option α)
      (hmake : ∀ found, make found ≠ .text text) :
      decoded column reason make value ≠ .ok (.text text) := by
    cases value with
    | none => exact nofun
    | some found => exact fun h ↦ hmake found (Except.ok.inj h)
  cases type with
  | text | varchar => cases other
  | boolean => exact nofun
  | smallInt | integer | bigInt | real | double =>
    dsimp only [decode]
    split <;> exact nofun
  | numeric | json | jsonb | uuid | timestamp | timestampTz | date | bytea =>
    exact hdecoded _ _ fun _ ↦ nofun

namespace Table

variable {table : Table} {column : String} {value : Literal}

/-- A table declares a column with a type that is not textual. -/
def Retypes (table : Table) (column : String) : Prop :=
  ∃ declared, table.column? column = some declared ∧ declared.type.isTextual = false

/-- A value under a name is a text that is read as the type of a declared column. -/
def Rereads (table : Table) (column : String) (value : Literal) : Prop :=
  table.Retypes column ∧ ∃ content, value = .text content

/-- A value stays as it is exactly if it is not read again. -/
theorem decodeText_eq_self_iff :
    table.decodeText column value = .ok value ↔ ¬table.Rereads column value := by
  unfold decodeText
  split
  · rename_i declared content hdeclared
    split
    · rename_i htextual
      refine iff_of_true rfl ?_
      rintro ⟨⟨other, hother, huntextual⟩, -⟩
      cases hdeclared.symm.trans hother
      cases htextual.symm.trans huntextual
    · rename_i hother
      have huntextual : declared.type.isTextual = false := Bool.eq_false_iff.2 hother
      exact iff_of_false (declared.type.decode_ne_text huntextual column content content)
        (not_not_intro ⟨⟨declared, hdeclared, huntextual⟩, content, rfl⟩)
  · rename_i hnone
    refine iff_of_true rfl ?_
    rintro ⟨⟨declared, hdeclared, -⟩, content, rfl⟩
    exact hnone declared content hdeclared rfl

end Table

/-! ## Rows -/

namespace Row

variable {table : Table} {row : Row}

/-- A row with one value for each of its columns. -/
def Aligned (row : Row) : Prop := row.columns.length = row.values.length

/-- Some value of a row is read again. -/
def Rereads (table : Table) (row : Row) : Prop :=
  ∃ entry ∈ row.columns.zip row.values, table.Rereads entry.1 entry.2

/-- Without a value that is read again, the values under the columns stay. -/
theorem decodeText_of_not_rereads (h : ¬row.Rereads table) :
    row.decodeText table =
      .ok { row with values := (row.columns.zip row.values).map Prod.snd } := by
  have hvalues : (row.columns.zip row.values).mapM
      (fun entry ↦ table.decodeText entry.1 entry.2) =
        .ok ((row.columns.zip row.values).map Prod.snd) :=
    mapM_eq_ok_map_iff.2 fun entry hentry ↦
      Table.decodeText_eq_self_iff.2 fun hreads ↦ h ⟨entry, hentry, hreads⟩
  unfold decodeText
  rw [hvalues]
  rfl

/-- A row with a value for each column stays as it is exactly if no value is read again. -/
theorem decodeText_eq_self_iff (aligned : row.Aligned) :
    row.decodeText table = .ok row ↔ ¬row.Rereads table := by
  have hvalues : (row.columns.zip row.values).map Prod.snd = row.values :=
    List.map_snd_zip aligned.ge
  constructor
  · rintro h ⟨entry, hentry, hreads⟩
    obtain ⟨values, hread, hsame⟩ := bind_eq_ok.1 h
    -- The row is kept only if each of its values is read as itself.
    have hkept : values = (row.columns.zip row.values).map Prod.snd := by
      rw [hvalues]
      exact congrArg Row.values (pure_eq_ok.1 hsame)
    rw [hkept] at hread
    exact Table.decodeText_eq_self_iff.1 (mapM_eq_ok_map_iff.1 hread entry hentry) hreads
  · intro h
    rw [decodeText_of_not_rereads h, hvalues]

end Row

/-- Every row of a result has one value for each of its columns. -/
def RowSet.Aligned (result : RowSet) : Prop := ∀ row ∈ result.rows, row.Aligned

/-! ## Results of queries -/

namespace Query

variable {query : Query} {reply : RowSet}

/-- Some value of a result is read again as the table of a query declares its column. -/
def Misreads (query : Query) (reply : RowSet) : Prop :=
  ∃ table, query.clauses.table = some table ∧ ∃ row ∈ reply.rows, row.Rereads table

/-- A result stays as it was delivered exactly if no value is read again. -/
theorem decoded_eq_self_iff (aligned : reply.Aligned) :
    query.decoded reply = .ok reply ↔ ¬query.Misreads reply := by
  unfold decoded Misreads
  cases query.clauses.table with
  | none => simp
  | some table =>
    have hrows : (do return { reply with rows := ← reply.rows.mapM (Row.decodeText table) }) =
        (.ok reply : Except Error RowSet) ↔
          reply.rows.mapM (Row.decodeText table) = .ok (reply.rows.map id) := by
      rw [List.map_id]
      constructor
      · intro h
        obtain ⟨rows, hread, hsame⟩ := bind_eq_ok.1 h
        rw [hread]
        exact congrArg Except.ok (congrArg RowSet.rows (pure_eq_ok.1 hsame))
      · intro h
        exact bind_eq_ok.2 ⟨reply.rows, h, rfl⟩
    refine hrows.trans (mapM_eq_ok_map_iff.trans ?_)
    simp only [Option.some.injEq, exists_eq_left', not_exists, not_and]
    exact forall₂_congr fun row hrow ↦ Row.decodeText_eq_self_iff (aligned row hrow)

/-- A result in which no value is read again can be read. -/
theorem misreads_of_decoded_eq_error {error : Error} (h : query.decoded reply = .error error) :
    query.Misreads reply := by
  by_contra hmisreads
  unfold decoded at h
  unfold Misreads at hmisreads
  cases htable : query.clauses.table with
  | none =>
    rw [htable] at h
    cases h
  | some table =>
    have hread (row : Row) (hrow : row ∈ reply.rows) : ∃ read, row.decodeText table = .ok read :=
      ⟨_, Row.decodeText_of_not_rereads fun hreads ↦
        hmisreads ⟨table, htable, row, hrow, hreads⟩⟩
    obtain ⟨rows, hrows⟩ := exists_mapM_eq_ok hread
    rw [htable] at h
    dsimp only at h
    rw [hrows] at h
    cases h

end Query

/-! ## Typed results -/

namespace WireType

/-- A value is one that a connection delivers for a type, or null. -/
def Delivers : WireType → Literal → Prop
  | .bool, .bool _ => True
  | .int2, .int _ | .int4, .int _ | .int8, .int _ => True
  | .float4, .float _ | .float8, .float _ => True
  | .numeric, .decimal _ => True
  | .text, .text _ | .varchar, .text _ | .bpchar, .text _ | .name, .text _
  | .unknown, .text _ => True
  | .json, .json _ | .jsonb, .json _ => True
  | .uuid, .uuid _ => True
  | .timestamp, .instant _ | .timestamptz, .instant _ => True
  | .date, .date _ => True
  | .bytea, .bytes _ => True
  | _, .null => True
  | _, _ => False

/-- The values of a type arrive as text. -/
def arrivesAsText : WireType → Bool
  | .text | .varchar | .bpchar | .name | .unknown => true
  | _ => false

variable {type : WireType} {value : Literal}

/-- A value that was delivered for a type is a text exactly if those of the type arrive as text, and
it is not null. -/
theorem Delivers.text_iff (delivered : type.Delivers value) :
    (∃ content, value = .text content) ↔ type.arrivesAsText ∧ value.isNull = false := by
  cases value with
  | text content =>
    refine iff_of_true ⟨content, rfl⟩ ⟨?_, rfl⟩
    cases type <;> first | rfl | exact delivered.elim
  | null => exact iff_of_false nofun nofun
  | _ =>
    refine iff_of_false nofun ?_
    rintro ⟨htext, -⟩
    cases type <;> first | exact delivered.elim | cases htext

end WireType

/-- A result whose rows have the columns of a heading, with values of their types. -/
def RowSet.Typed (heading : List (String × WireType)) (result : RowSet) : Prop :=
  ∀ row ∈ result.rows, row.columns = heading.map Prod.fst ∧
    List.Forall₂ (fun declared value ↦ declared.2.Delivers value) heading row.values

/-- What is read from the bytes of a type is a value of the type. -/
theorem Wire.delivers_of_reader? {type : WireType} {read : List UInt8 → Option Literal}
    {bytes : List UInt8} {literal : Literal} (hreader : reader? type = some read)
    (hread : read bytes = some literal) : type.Delivers literal := by
  cases type with
  | other typeName => cases hreader
  | text | varchar | bpchar | name | unknown | json | jsonb | uuid =>
    cases hreader
    obtain ⟨_, -, rfl⟩ := Option.map_eq_some_iff.1 hread
    trivial
  | bytea =>
    cases hreader
    cases hread
    trivial
  | bool | int2 | int4 | int8 | float4 | float8 =>
    cases hreader
    obtain ⟨_, -, hsame⟩ := Option.bind_eq_some_iff.1 hread
    cases hsame
    trivial
  | numeric | timestamp | timestamptz | date =>
    cases hreader
    obtain ⟨_, -, hread⟩ := Option.bind_eq_some_iff.1 hread
    obtain ⟨_, -, hsame⟩ := Option.bind_eq_some_iff.1 hread
    cases hsame
    trivial

/-- A decoded value is one that its type delivers. -/
theorem Wire.delivers_of_decode {place : Nat} {column : String} {type : WireType}
    {value : WireValue} {literal : Literal} (h : decode place column type value = .ok literal) :
    type.Delivers literal := by
  unfold decode at h
  cases hreader : reader? type with
  | none =>
    rw [hreader] at h
    cases h
  | some read =>
    rw [hreader] at h
    cases value with
    | none =>
      cases h
      cases type <;> trivial
    | some bytes =>
      dsimp only at h
      split at h
      · rename_i hread
        cases h
        exact delivers_of_reader? hreader hread
      · cases h

/-- What a connection reads off the wire is typed by the heading that came with it. -/
theorem Wire.typed_decodeRows {heading : List (String × WireType)}
    {arrived : List (List WireValue)} {count : Option Nat} {result : RowSet}
    (h : decodeRows heading arrived count = .ok result) : result.Typed heading := by
  obtain ⟨rows, hrows, hresult⟩ := bind_eq_ok.1 h
  rw [← pure_eq_ok.1 hresult]
  intro row hrow
  obtain ⟨values, -, hdecoded⟩ := exists_of_mem_results hrows hrow
  obtain ⟨hwidth, hdecoded⟩ := refusing_eq_ok.1 hdecoded
  obtain ⟨literals, hliterals, hsame⟩ := bind_eq_ok.1 hdecoded
  rw [← pure_eq_ok.1 hsame]
  refine ⟨rfl, ?_⟩
  have hheading : (heading.zip values).zipIdx.map (fun entry ↦ entry.1.1) = heading := by
    calc (heading.zip values).zipIdx.map (fun entry ↦ entry.1.1)
        = ((heading.zip values).zipIdx.map Prod.fst).map Prod.fst := by rw [List.map_map]; rfl
      _ = (heading.zip values).map Prod.fst := by rw [List.zipIdx_map_fst]
      _ = heading := List.map_fst_zip (not_not.1 hwidth).ge
  rw [← hheading, List.forall₂_map_left_iff]
  exact (forall₂_of_mapM hliterals).imp fun _ _ ↦ delivers_of_decode

namespace Query

variable {query : Query} {reply : RowSet} {heading : List (String × WireType)}

/-- A value that is not null stands in a column whose values arrive as text, under the name of a
column that the table of a query declares with a type that is not textual. -/
def Collides (query : Query) (heading : List (String × WireType)) (reply : RowSet) : Prop :=
  ∃ table, query.clauses.table = some table ∧ ∃ row ∈ reply.rows,
    ∃ entry ∈ heading.zip row.values, table.Retypes entry.1.1 ∧ entry.1.2.arrivesAsText ∧
      entry.2.isNull = false

end Query

theorem RowSet.Typed.aligned {heading : List (String × WireType)} {reply : RowSet}
    (typed : reply.Typed heading) : reply.Aligned := by
  intro row hrow
  obtain ⟨hcolumns, hvalues⟩ := typed row hrow
  calc row.columns.length = heading.length := by rw [hcolumns, List.length_map]
    _ = row.values.length := hvalues.length_eq

/-- Of the values that were delivered for types, those are read again that collide. -/
theorem Query.misreads_iff_collides {query : Query} {heading : List (String × WireType)}
    {reply : RowSet} (typed : reply.Typed heading) :
    query.Misreads reply ↔ query.Collides heading reply := by
  refine exists_congr fun table ↦ and_congr_right fun _ ↦ exists_congr fun row ↦
    and_congr_right fun hrow ↦ ?_
  obtain ⟨hcolumns, hvalues⟩ := typed row hrow
  have hentry {entry : (String × WireType) × Literal} (hmem : entry ∈ heading.zip row.values) :
      table.Rereads entry.1.1 entry.2 ↔
        table.Retypes entry.1.1 ∧ entry.1.2.arrivesAsText ∧ entry.2.isNull = false :=
    and_congr_right fun _ ↦ WireType.Delivers.text_iff (List.forall₂_zip hvalues hmem)
  unfold Row.Rereads
  rw [hcolumns, List.zip_map_left]
  simp only [List.mem_map, exists_exists_and_eq_and, Prod.map_fst, Prod.map_snd, id_eq]
  exact exists_congr fun entry ↦ and_congr_right hentry

/-! ## Running -/

namespace Query

/-- The queries whose statements are sent when a query runs. -/
inductive Involves (query : Query) : Query → Prop
  | own : Involves query query
  /-- A key is filled into a cell. -/
  | fillCell {part : Query} (h : Involves query part) (row column : Nat) (key : Literal) :
      Involves query (part.fillCell row column key)
  /-- A row that rows refer to is inserted. -/
  | before {part insertion : Query} {row column : Nat} {relation : Relation} {data : Payload}
      (h : Involves query part) (asked : .before row column relation data ∈ part.clauses.related)
      (built : part.insertionBefore relation data = .ok insertion) : Involves query insertion
  /-- Rows that refer to a row are inserted. -/
  | after {part insertion : Query} {row : Nat} {relation : Relation} {rows : List Payload}
      {key : Literal} (h : Involves query part)
      (asked : .after row relation rows ∈ part.clauses.related)
      (built : part.insertionAfter relation rows key = .ok insertion) : Involves query insertion
  /-- A row is inserted in place. -/
  | replaced {part : Query} {fallback : Statement} (h : Involves query part)
      (held : part.clauses.fallback = some fallback) :
      Involves query (part.withClauses fallback.clauses)

/-- A query is misled in a step: the connection or a hook says that a value cannot be read, or a
statement is answered by a result of which a value is read again. -/
inductive Misled (query : Query) : Script.Step → Prop
  | sent {sql : String} {values : List Literal} {error : Error} (unread : error.kind = .decode) :
      Misled query (.sent sql values (.error error))
  | called {hook : HookCall} {error : Error} (unread : error.kind = .decode) :
      Misled query (.called hook (.error error))
  | answered {part : Query} {sql : CompiledSql} {reply : RowSet} (involved : query.Involves part)
      (compiled : part.compile = .ok sql) (misreads : part.Misreads reply) :
      Misled query (.sent sql.text sql.values (.ok reply))

/-- Where a script fails because a value cannot be read, a query was misled in a step. -/
def Blames {α : Type} (query : Query) (script : Script α) : Prop :=
  ∀ (σ : Type) (surroundings : Script.Surroundings σ) (memory : σ) (error : Error),
    (script.run surroundings memory).result = .error error → error.kind = .decode →
      ∃ step ∈ script.steps surroundings memory, query.Misled step

variable {query part : Query}

theorem composesFor_blames (query : Query) :
    Script.ComposesFor (fun error ↦ error.kind ≠ .decode) fun _ script ↦ query.Blames script where
  done _ _ _ _ _ := nofun
  fail hkind _ _ _ _ herror hunread := by
    cases herror
    exact absurd hunread hkind
  bind {_ _ script next} first rest σ surroundings memory error herror hunread := by
    rw [Script.steps_bind]
    cases hresult : (script.run surroundings memory).result with
    | error fault =>
      rw [Script.result_bind_error surroundings hresult] at herror
      cases herror
      obtain ⟨step, hmem, hmisled⟩ := first σ surroundings memory error hresult hunread
      exact ⟨step, List.mem_append_left _ hmem, hmisled⟩
    | ok value =>
      rw [Script.result_bind_ok surroundings hresult] at herror
      obtain ⟨step, hmem, hmisled⟩ := rest value σ surroundings _ error herror hunread
      exact ⟨step, List.mem_append_right _ hmem, hmisled⟩

/-- What follows an answer to a statement is blamed on the statement or on what follows. -/
theorem blames_send_bind {α : Type} {sql : String} {values : List Literal}
    {next : Except Error RowSet → Script α}
    (answered : ∀ reply, query.Misled (.sent sql values reply) ∨ query.Blames (next reply)) :
    query.Blames ((part.send sql values).bind next) := by
  intro σ surroundings memory error herror hunread
  obtain ⟨logs, -, hsteps⟩ := Query.steps_send_bind surroundings part sql values next memory
  obtain ⟨hresult, hmemory, -⟩ := run_send surroundings part sql values memory
  rw [hsteps]
  rw [Script.result_bind_ok surroundings hresult, hmemory] at herror
  rcases answered (surroundings.send memory sql values).1 with hmisled | hblames
  · exact ⟨_, List.mem_cons_self, hmisled⟩
  · obtain ⟨step, hmem, hmisled⟩ := hblames σ surroundings _ error herror hunread
    exact ⟨step, List.mem_cons_of_mem _ (List.mem_append_right _ hmem), hmisled⟩

theorem blames_ofExcept {α : Type} {result : Except Error α}
    (plain : ∀ error, result = .error error → error.kind ≠ .decode) :
    query.Blames (Script.ofExcept result) :=
  (composesFor_blames query).ofExcept plain

theorem blames_call {α : Type} {hook : HookCall} {next : Except Error Unit → Script α}
    (called : ∀ verdict, query.Misled (.called hook verdict) ∨ query.Blames (next verdict)) :
    query.Blames (.call hook next) := by
  intro σ surroundings memory error herror hunread
  rcases called (surroundings.call memory hook).1 with hmisled | hblames
  · exact ⟨_, List.mem_cons_self, hmisled⟩
  · obtain ⟨step, hmem, hmisled⟩ := hblames σ surroundings _ error herror hunread
    exact ⟨step, List.mem_cons_of_mem _ hmem, hmisled⟩

theorem blames_callAll (hooks : List HookCall) : query.Blames (Script.callAll hooks) := by
  have composes := composesFor_blames query
  induction hooks with
  | nil => exact composes.done ()
  | cons hook rest ih =>
    refine blames_call fun verdict ↦ ?_
    cases verdict with
    | ok agreed => exact .inr ih
    | error error =>
      by_cases hunread : error.kind = .decode
      · exact .inl (.called hunread)
      · exact .inr (composes.fail hunread)

/-- A statement is answered by a failure, or by a result that is read unless it is misread. -/
theorem blames_sendStatement (involved : query.Involves part) :
    query.Blames part.sendStatement := by
  have composes := composesFor_blames query
  rw [sendStatement_eq]
  cases hcompiled : part.compile with
  | error error =>
    exact composes.fail (kind_of_isConstruction (part.constructs_compile error hcompiled))
  | ok sql =>
    refine blames_send_bind fun reply ↦ ?_
    cases reply with
    | error error =>
      by_cases hunread : error.kind = .decode
      · exact .inl (.sent hunread)
      · exact .inr (composes.fail hunread)
    | ok result =>
      by_cases hmisreads : part.Misreads result
      · exact .inl (.answered involved hcompiled hmisreads)
      · exact .inr (blames_ofExcept fun error herror ↦
          absurd (misreads_of_decoded_eq_error herror) hmisreads)

theorem inheritsFor_blames (query : Query) :
    InheritsFor (fun error ↦ error.kind ≠ .decode) (fun _ script ↦ query.Blames script)
      query.Involves where
  composes := composesFor_blames query
  fails _ := id
  passes := ⟨.fillCell, .before, .after, .replaced⟩
  own _ := blames_sendStatement
  hooks _ _ _ _ := blames_callAll _

/-- A statement of the transaction is refused, or what follows it is run. -/
theorem blames_command {α : Type} {sql : String} {values : List Literal} {next : Script α}
    (h : query.Blames next) :
    query.Blames ((part.send sql values).bind fun reply ↦
      (Script.ofExcept reply).bind fun _ ↦ next) := by
  refine blames_send_bind fun reply ↦ ?_
  cases reply with
  | ok result => exact .inr h
  | error error =>
    by_cases hunread : error.kind = .decode
    · exact .inl (.sent hunread)
    · exact .inr ((composesFor_blames query).fail hunread)

/-- After an attempt that failed for another reason, what follows is blamed as before. -/
theorem Blames.attempt_bind {α β : Type} {script : Script α} {next : Except Error α → Script β}
    (h : query.Blames script) (succeeded : ∀ value, query.Blames (next (.ok value)))
    (failed : ∀ error, error.kind ≠ .decode → query.Blames (next (.error error))) :
    query.Blames (script.attempt.bind next) := by
  intro σ surroundings memory error herror hunread
  rw [Script.steps_attempt_bind]
  rw [Script.run_bind, Script.run_attempt, Script.Played.followed_ok rfl] at herror
  have hfollowing (blames : query.Blames (next (script.run surroundings memory).result)) :
      ∃ step ∈ script.steps surroundings memory ++
        (next (script.run surroundings memory).result).steps surroundings
          (script.run surroundings memory).memory, query.Misled step := by
    obtain ⟨step, hmem, hmisled⟩ := blames σ surroundings _ error herror hunread
    exact ⟨step, List.mem_append_right _ hmem, hmisled⟩
  cases hresult : (script.run surroundings memory).result with
  | ok value =>
    rw [hresult] at hfollowing
    exact hfollowing (succeeded value)
  | error cause =>
    rw [hresult] at hfollowing
    -- Whatever follows, a value that could not be read before is to blame already.
    by_cases hcause : cause.kind = .decode
    · obtain ⟨step, hmem, hmisled⟩ := h σ surroundings memory cause hresult hcause
      exact ⟨step, List.mem_append_left _ hmem, hmisled⟩
    · exact hfollowing (failed cause hcause)

theorem blames_runWithin (query : Query) (scope : Scope) :
    query.Blames (query.runWithin scope) := by
  have composes := composesFor_blames query
  have hstatements : query.Blames query.runStatements :=
    (inheritsFor_blames query).runStatements query .own
  refine blames_command (hstatements.attempt_bind (fun outcome ↦ ?_) fun error hplain ↦ ?_)
  · exact blames_command (composes.done outcome)
  · -- A failed rollback hides its cause behind a failure of another kind.
    refine blames_send_bind fun reply ↦ .inr ?_
    cases reply with
    | ok result => exact composes.fail hplain
    | error failure => exact composes.fail nofun

theorem kind_of_ofSession {session : Session} {error : Error}
    (h : Scope.ofSession session = .error error) : error.kind ≠ .decode := by
  unfold Scope.ofSession at h
  split at h
  · cases h
  · split at h <;> cases h
    exact nofun

theorem blames_exec (query : Query) (session : Session) :
    query.Blames (query.exec session) := by
  have composes := composesFor_blames query
  have hbetween : query.Blames (query.runBetween session) := by
    rcases query.runBetween_cases session with ⟨scope, -, -, hbetween⟩ |
      ⟨refusal, -, hrefused, hbetween⟩ | ⟨-, hbetween⟩ <;> rw [hbetween]
    · exact blames_runWithin query scope
    · exact composes.fail (kind_of_ofSession hrefused)
    · exact (inheritsFor_blames query).runStatements query .own
  rw [exec_eq]
  exact composes.bind (blames_callAll _) fun _ ↦ composes.bind hbetween fun outcome ↦
    composes.bind (blames_callAll _) fun _ ↦ composes.done _

/-- A query that succeeds was answered as its own statement, or that of the row in its place, was,
and its output is that of the answer. -/
theorem answered_exec {σ : Type} {surroundings : Script.Surroundings σ} {supplied : Fragment → Prop}
    (reached : query.Reachable supplied) {session : Session} {memory : σ} {output : Output}
    (h : ((query.exec session).run surroundings memory).result = .ok output) :
    ∃ told filled sql reply result, query.IsRunFor told ∧
      told.AnsweredIn surroundings filled sql reply result
        ((query.exec session).steps surroundings memory) ∧
      output = filled.outputOf result := by
  obtain ⟨ended, hyields⟩ := Script.exists_yields_of_ok surroundings h
  rw [exec_eq, Script.yields_bind] at hyields
  obtain ⟨_, ready, hready, hyields⟩ := hyields
  rw [Script.yields_bind] at hyields
  obtain ⟨outcome, closed, hbetween, hyields⟩ := hyields
  obtain ⟨_, _, _, hdone⟩ := (Script.yields_bind surroundings).1 hyields
  obtain ⟨rfl, -⟩ := (Script.yields_done surroundings).1 hdone
  obtain ⟨opened, hbody, hwithin⟩ := exists_statements_between hbetween.1
  obtain ⟨filled, sql, reply, result, hanswered, hcame⟩ := answered_runStatements hbody
  refine ⟨outcome.created.getD query, filled, sql, reply, result, isRunFor_created hbody,
    hanswered.mono fun step hmem ↦ ?_, hcame fun fallback ↦ reached.fallback_alone⟩
  rw [exec_eq, Script.steps_bind_ok surroundings hready.1, hready.2,
    Script.steps_bind_ok surroundings hbetween.1]
  exact List.mem_append_right _ (List.mem_append_left _ (hwithin step hmem))

/-- Filling in keys changes nothing about what is read again. -/
theorem Filled.misreads_iff {filled : Query} (h : query.Filled filled) (reply : RowSet) :
    filled.Misreads reply ↔ query.Misreads reply := by
  unfold Misreads
  rw [h.clauses]

/-- The output of a query that succeeds is that of the answer to its own statement, or to that of
the row in its place, which was left as it was delivered exactly if no value of it is read again.
A query that fails because a value cannot be read was misled in a step. Of typed values, those are
read again that arrive as text under the name of a column declared with another type, and what is
read off the wire is typed. -/
theorem exec_reading {supplied : Fragment → Prop} (reached : query.Reachable supplied) {σ : Type}
    (surroundings : Script.Surroundings σ) (session : Session) (memory : σ) :
    (∀ output, ((query.exec session).run surroundings memory).result = .ok output →
      ∃ told filled sql reply result, query.IsRunFor told ∧
        told.AnsweredIn surroundings filled sql reply result
          ((query.exec session).steps surroundings memory) ∧
        output = filled.outputOf result ∧
        (reply.Aligned → (result = reply ↔ ¬told.Misreads reply))) ∧
    (∀ error, ((query.exec session).run surroundings memory).result = .error error →
      error.kind = .decode →
        ∃ step ∈ (query.exec session).steps surroundings memory, query.Misled step) ∧
    (∀ (part : Query) heading reply, RowSet.Typed heading reply →
      reply.Aligned ∧ (part.Misreads reply ↔ part.Collides heading reply)) ∧
    ∀ heading arrived count reply, Wire.decodeRows heading arrived count = .ok reply →
      reply.Typed heading := by
  refine ⟨fun output hok ↦ ?_, blames_exec query session σ surroundings memory,
    fun part heading reply typed ↦ ⟨typed.aligned, misreads_iff_collides typed⟩,
    fun heading arrived count reply ↦ Wire.typed_decodeRows⟩
  obtain ⟨told, filled, sql, reply, result, hruns, hanswered, houtput⟩ := answered_exec reached hok
  refine ⟨told, filled, sql, reply, result, hruns, hanswered, houtput, fun aligned ↦ ?_⟩
  calc result = reply
      ↔ filled.decoded reply = .ok reply := by
        rw [hanswered.decoded, Except.ok.injEq]
    _ ↔ ¬filled.Misreads reply := decoded_eq_self_iff aligned
    _ ↔ ¬told.Misreads reply := not_congr (hanswered.fills.misreads_iff reply)

end Query

namespace Blog

def labelled (label : String) : Query :=
  users.selectItems [⟨.column ⟨none, "name"⟩, some label⟩]

theorem reachable_labelled (label : String) : (labelled label).Reachable fun _ ↦ False := by
  have hname : ColumnRef.parse "name" = .ok ⟨none, "name"⟩ := by decide +kernel
  have hselect : users.selectAs "name" label = .ok (labelled label) := by
    unfold Query.selectAs
    rw [hname]
    rfl
  exact .call_alone (.ofTable user (some catalog) none) (.selectAs "name" label) trivial hselect

def alone (label : String) : RowSet := ⟨1, [⟨[label], [.text "Ada"]⟩]⟩

theorem typed_alone (label : String) : (alone label).Typed [(label, .text)] := by
  intro row hrow
  rw [List.mem_singleton.1 hrow]
  exact ⟨rfl, .cons trivial .nil⟩

theorem runStatements_labelled (label : String) : (labelled label).runStatements =
    (labelled label).sendStatement.bind fun result => .done ⟨.all result.rows, none⟩ := by
  have hrelated : (labelled label).clauses.related = [] := rfl
  rw [Query.runStatements_eq, hrelated, Query.runBefore, Script.bind]
  refine congrArg (labelled label).sendStatement.bind (funext fun result ↦ ?_)
  have hproceed : (labelled label).proceed (labelled label) result =
      (labelled label).finish (labelled label) result := rfl
  rw [hproceed, Query.finish, hrelated, Query.runAfter]
  rfl

/-- The answer is read as the table of the users declares its column. -/
theorem result_labelled (label : String) :
    (((labelled label).exec ⟨false, true⟩).run server [.ok (alone label)]).result =
      ((labelled label).decoded (alone label)).map fun result ↦ .all result.rows := by
  obtain ⟨sql, hsql⟩ : ∃ sql, (labelled label).compile = .ok sql := ⟨_, rfl⟩
  obtain ⟨hresult, -, -⟩ :=
    Query.run_send server (labelled label) sql.text sql.values [.ok (alone label)]
  rw [send_server hsql] at hresult
  have hread (read : Except Error RowSet) (memory : Rehearsal.Answers) :
      ((Script.ofExcept read).run server memory).result = read := by cases read <;> rfl
  have hsent : ((labelled label).sendStatement.run server [.ok (alone label)]).result =
      (labelled label).decoded (alone label) := by
    rw [Query.sendStatement_eq, hsql, Script.ofExcept, Script.bind,
      Script.result_bind_ok server hresult]
    exact hread _ _
  have hbefore : Script.callAll (labelled label).hooksBefore = .done () := rfl
  have hbetween : (labelled label).runBetween ⟨false, true⟩ = (labelled label).runStatements := rfl
  rw [Query.exec_eq, hbefore, hbetween, runStatements_labelled, Script.bind]
  cases hdecoded : (labelled label).decoded (alone label) with
  | error error =>
    rw [hdecoded] at hsent
    exact Script.result_bind_error server (Script.result_bind_error server hsent _) _
  | ok result =>
    rw [hdecoded] at hsent
    rw [Script.result_bind_ok server ((Script.result_bind_ok server hsent _).trans rfl)]
    rfl

end Blog

namespace Query

/-- The name of a user under a name that no column has is handed over as it was delivered. -/
theorem exec_reading_labelled : (Blog.labelled "label").Reachable (fun _ ↦ False) ∧
    (((Blog.labelled "label").exec ⟨false, true⟩).run Blog.server
      [.ok (Blog.alone "label")]).result = .ok (.all (Blog.alone "label").rows) ∧
    ∃ told filled sql reply result, (Blog.labelled "label").IsRunFor told ∧
      told.AnsweredIn Blog.server filled sql reply result
        (((Blog.labelled "label").exec ⟨false, true⟩).steps Blog.server
          [.ok (Blog.alone "label")]) ∧
      .all (Blog.alone "label").rows = filled.outputOf result ∧
      (reply.Aligned → (result = reply ↔ ¬told.Misreads reply)) := by
  have hresult := (Blog.result_labelled "label").trans
    (show _ = .ok (.all (Blog.alone "label").rows) from rfl)
  obtain ⟨hanswered, -⟩ := exec_reading (Blog.reachable_labelled "label") Blog.server ⟨false, true⟩
    [.ok (Blog.alone "label")]
  exact ⟨Blog.reachable_labelled "label", hresult, hanswered _ hresult⟩

/-- The name of a user under the name of the key, which is an integer, cannot be read. -/
theorem exec_misnamed : ∃ sql, (Blog.labelled "id").compile = .ok sql ∧
    sql.text = "SELECT \"user\".\"name\" AS \"id\" FROM \"user\"" ∧
    (Blog.alone "id").Typed [("id", .text)] ∧
    (((Blog.labelled "id").exec ⟨false, true⟩).run Blog.server [.ok (Blog.alone "id")]).result =
      .error (.decode "id" "invalid digit found in string") := by
  obtain ⟨sql, hsql⟩ : ∃ sql, (Blog.labelled "id").compile = .ok sql := ⟨_, rfl⟩
  refine ⟨sql, hsql, ?_, Blog.typed_alone "id", ?_⟩
  · cases hsql
    decide +kernel
  · rw [Blog.result_labelled]
    rfl

end Query

end SqlComposer
