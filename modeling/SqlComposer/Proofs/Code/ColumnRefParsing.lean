import SqlComposer.Proofs.Code.IdentDenotation

/-!
# The columns that identifiers refer to

A reference to a column is read from an identifier of one or two parts and written as an identifier
again. All that it keeps of a part is its name, so a last name that is a star in quotes becomes the
wildcard. Every other identifier is written as it was read, behind the qualifier of the place if it
has no table of its own, and different ones are written differently.
-/

namespace SqlComposer

namespace Ident

/-- Whether the last part is a name that looks like the star, as it can be given in quotes. -/
def QuotesStar (ident : Ident) : Prop := ident.parts.getLast? = some (.name "*")

variable {text other : String} {ident another : Ident}

/-- Identifiers that were read are written differently if they differ. -/
theorem eq_of_toSql_eq (read : parse text = .ok ident) (readOther : parse other = .ok another)
    (same : ident.toSql = another.toSql) : ident = another := by
  have hident := (parse_iff _ _).2 ((parse_iff _ _).1 read).toSql
  have hanother := (parse_iff _ _).2 ((parse_iff _ _).1 readOther).toSql
  rw [same, hanother] at hident
  exact (Except.ok.inj hident).symm

theorem getLast?_quoteName (name : String) : (quoteName name).toList.getLast? = some '"' := by
  rw [quoteName, enclosed, String.toList_ofList, ← List.cons_append, List.getLast?_concat]

/-- The text of an identifier ends in the star or in the quote of its last part. -/
theorem getLast?_toSql (before : List IdentPart) (part : IdentPart) :
    (toSql ⟨before ++ [part]⟩).toList.getLast? = some (if part = .star then '*' else '"') := by
  have hpart : part.toSql.toList.getLast? = some (if part = .star then '*' else '"') := by
    cases part with
    | name text => exact getLast?_quoteName text
    | star => rfl
  unfold toSql
  induction before with
  | nil => rw [List.nil_append, List.map_singleton, String.intercalate_singleton, hpart]
  | cons first rest ih =>
    rw [List.cons_append, List.map_cons, String.intercalate_cons_of_ne_nil (by simp),
      String.toList_append, List.getLast?_append, ih, Option.some_or]

end Ident

namespace ColumnRef

/-! ## Writing -/

/-- The identifier that a reference is written as. -/
def ident (column : ColumnRef) : Ident :=
  ⟨(column.table.map IdentPart.name).toList ++ [if column.isStar then .star else .name column.name]⟩

/-- A reference is written as an identifier, behind the qualifier of the place if this has a single
part, and it is the wildcard just if the identifier ends in the star. -/
structure Written (column : ColumnRef) (ident : Ident) : Prop where
  alone : ∀ bound, Code.print bound (column.code none) = ident.toSql
  qualified : ∀ bound qualifier, Code.print bound (column.code (some qualifier)) =
    if ident.parts.length = 1 then qualifier.print bound ++ "." ++ ident.toSql else ident.toSql
  wildcard : ∀ bound qualifier,
    (Code.print bound (column.code qualifier)).toList.getLast? = some '*' ↔ ident.isStar

theorem written_ident (column : ColumnRef) : column.Written column.ident := by
  have hlast (bound : Nat) :
      (if column.isStar then Piece.word "*" else .name column.name).print bound =
        (if column.isStar then IdentPart.star else .name column.name).toSql := by
    split <;> rfl
  have halone (bound : Nat) : Code.print bound (column.code none) = column.ident.toSql := by
    unfold code ident Ident.toSql
    cases column.table with
    | none => simp [Code.print, hlast]
    | some table =>
      have htable : (IdentPart.name table).toSql = quoteName table := rfl
      simp [Code.print, Piece.print, hlast, htable, String.append_assoc]
  have hqualified (bound : Nat) (qualifier : Piece) :
      Code.print bound (column.code (some qualifier)) = if column.ident.parts.length = 1 then
        qualifier.print bound ++ "." ++ column.ident.toSql else column.ident.toSql := by
    cases htable : column.table with
    | none =>
      rw [if_pos (by simp [ident, htable])]
      unfold code ident Ident.toSql
      rw [htable]
      simp [Code.print, Piece.print, hlast, String.append_assoc]
    | some table =>
      rw [if_neg (by simp [ident, htable]), ← halone bound]
      unfold code
      rw [htable]
  have hlastCharacter (before : String) :
      (before ++ column.ident.toSql).toList.getLast? = some '*' ↔ column.ident.isStar := by
    rw [String.toList_append, List.getLast?_append, ident, Ident.getLast?_toSql]
    split <;> simp_all [Ident.isStar]
  refine ⟨halone, hqualified, fun bound qualifier ↦ ?_⟩
  rw [← hlastCharacter ""]
  cases qualifier with
  | none => rw [halone, String.empty_append]
  | some qualifier =>
    rw [hqualified]
    split
    · rw [hlastCharacter, hlastCharacter]
    · rw [String.empty_append]

/-! ## Reading -/

variable {text : String} {column : ColumnRef} {read : Ident}

/-- A text is a column reference iff it reads as an identifier of one or two parts. -/
theorem parse_eq_ok : parse text = .ok column ↔ ∃ read, Ident.parse text = .ok read ∧
    ((∃ part, read.parts = [part] ∧ column = ⟨none, partName part⟩) ∨
      ∃ table part, read.parts = [table, part] ∧
        column = ⟨some (partName table), partName part⟩) := by
  unfold parse
  rw [bind_eq_ok]
  refine exists_congr fun read ↦ and_congr_right fun _ ↦ ?_
  split <;> simp_all [eq_comm]

/-- All that a reference keeps of a part is its name. -/
theorem ident_partName (table : Option String) (part : IdentPart) :
    ident ⟨table, partName part⟩ =
      ⟨(table.map .name).toList ++ [if part = .name "*" then .star else part]⟩ := by
  unfold ident isStar
  cases part with
  | name text => by_cases htext : text = "*" <;> simp [partName, htext]
  | star => rfl

/-- A reference is written as the identifier from which it was read, but for a star in quotes. -/
theorem ident_of_parse (h : parse text = .ok column) (hread : Ident.parse text = .ok read) :
    (read.QuotesStar → column.ident = ⟨read.parts.dropLast ++ [.star]⟩) ∧
      (¬read.QuotesStar → column.ident = read) := by
  obtain ⟨_, hsame, hparts⟩ := parse_eq_ok.1 h
  obtain rfl := Except.ok.inj (hread.symm.trans hsame)
  obtain ⟨_, denoted⟩ := (Ident.parse_iff _ _).1 hread
  have hstar := denoted.star_last
  obtain ⟨parts⟩ := read
  unfold Ident.QuotesStar
  rcases hparts with ⟨part, rfl, rfl⟩ | ⟨table, part, rfl, rfl⟩
  · rw [ident_partName]
    by_cases hpart : part = .name "*" <;> simp [hpart]
  · cases table with
    | name table =>
      rw [partName, ident_partName]
      by_cases hpart : part = .name "*" <;> simp [hpart]
    | star => simp at hstar

theorem exists_parse_iff : (∃ column, parse text = .ok column) ↔
    ∃ read, Ident.parse text = .ok read ∧ (read.parts.length = 1 ∨ read.parts.length = 2) := by
  simp only [parse_eq_ok, List.length_eq_one_iff, List.length_eq_two]
  constructor
  · rintro ⟨_, read, hread, ⟨part, hparts, -⟩ | ⟨table, part, hparts, -⟩⟩
    · exact ⟨read, hread, .inl ⟨part, hparts⟩⟩
    · exact ⟨read, hread, .inr ⟨table, part, hparts⟩⟩
  · rintro ⟨read, hread, ⟨part, hparts⟩ | ⟨table, part, hparts⟩⟩
    · exact ⟨_, read, hread, .inl ⟨part, hparts, rfl⟩⟩
    · exact ⟨_, read, hread, .inr ⟨table, part, hparts, rfl⟩⟩

/-- The wildcard is written for no name. -/
theorem not_written {read : Ident} (quoted : read.QuotesStar)
    (written : column.Written ⟨read.parts.dropLast ++ [.star]⟩) : ¬column.Written read := by
  intro h
  have hstar := (h.wildcard 0 none).1 ((written.wildcard 0 none).2 (by simp [Ident.isStar]))
  simp [Ident.isStar, show read.parts.getLast? = _ from quoted] at hstar

/-- References with the same text, at a place that does not qualify one of them alone, come from the
same identifier. -/
theorem Written.eq_of_print_eq {text other : String} {column another : ColumnRef}
    {read readOther : Ident} (written : column.Written read)
    (writtenOther : another.Written readOther) (hread : Ident.parse text = .ok read)
    (hreadOther : Ident.parse other = .ok readOther) {bound : Nat} {qualifier : Qualifier}
    (alike : qualifier = none ∨ read.parts.length = readOther.parts.length)
    (same : Code.print bound (column.code qualifier) =
      Code.print bound (another.code qualifier)) : read = readOther := by
  apply Ident.eq_of_toSql_eq hread hreadOther
  cases qualifier with
  | none => rwa [written.alone, writtenOther.alone] at same
  | some qualifier =>
    rw [written.qualified, writtenOther.qualified,
      alike.resolve_left (Option.some_ne_none _)] at same
    split at same
    · exact (String.append_right_inj _).1 same
    · exact same

/-- A text is read as a reference just if it is an identifier of one or two parts. Unless this ends
in a star in quotes, the reference is written as the identifier, and differently from every other
one; a star in quotes is written as the wildcard. -/
theorem parse_written (text : String) :
    ((∃ column, parse text = .ok column) ↔ ∃ read, Ident.parse text = .ok read ∧
      (read.parts.length = 1 ∨ read.parts.length = 2)) ∧
    ∀ column read, parse text = .ok column → Ident.parse text = .ok read →
      (column.Written read ↔ ¬read.QuotesStar) ∧
      (read.QuotesStar → column.Written ⟨read.parts.dropLast ++ [.star]⟩) ∧
      ∀ other another readOther, parse other = .ok another → Ident.parse other = .ok readOther →
        ¬read.QuotesStar → ¬readOther.QuotesStar → read ≠ readOther →
        ∀ bound qualifier, (qualifier = none ∨ read.parts.length = readOther.parts.length) →
          Code.print bound (column.code qualifier) ≠ Code.print bound (another.code qualifier) := by
  refine ⟨exists_parse_iff, fun column read hcolumn hread ↦ ?_⟩
  obtain ⟨hquoted, hplain⟩ := ident_of_parse hcolumn hread
  have hwritten := column.written_ident
  refine ⟨⟨fun h quoted ↦ not_written quoted (hquoted quoted ▸ hwritten) h,
    fun plain ↦ hplain plain ▸ hwritten⟩, fun quoted ↦ hquoted quoted ▸ hwritten, ?_⟩
  intro other another readOther hanother hreadOther plain plainOther differ bound qualifier alike
  have hwrittenOther := another.written_ident
  rw [(ident_of_parse hanother hreadOther).2 plainOther] at hwrittenOther
  rw [hplain plain] at hwritten
  exact fun same ↦ differ (hwritten.eq_of_print_eq hwrittenOther hread hreadOther alike same)

/-- A dot in quotes is kept apart from one between two parts, and a star in quotes becomes the
wildcard. -/
theorem parse_written_dotted : ∃ owned single star read,
    parse "post.id" = .ok owned ∧ parse "\"post.id\"" = .ok single ∧
    Ident.parse "post.id" = .ok read ∧ owned.Written read ∧
    Code.print 0 (owned.code none) ≠ Code.print 0 (single.code none) ∧
    parse "post.\"*\"" = .ok star ∧ star.Written ⟨[.name "post", .star]⟩ := by
  have howned : parse "post.id" = .ok ⟨some "post", "id"⟩ := by decide +kernel
  have hread : Ident.parse "post.id" = .ok ⟨[.name "post", .name "id"]⟩ := by decide +kernel
  have hsingle : parse "\"post.id\"" = .ok ⟨none, "post.id"⟩ := by decide +kernel
  have hreadSingle : Ident.parse "\"post.id\"" = .ok ⟨[.name "post.id"]⟩ := by decide +kernel
  have hstar : parse "post.\"*\"" = .ok ⟨some "post", "*"⟩ := by decide +kernel
  have hreadStar : Ident.parse "post.\"*\"" = .ok ⟨[.name "post", .name "*"]⟩ := by decide +kernel
  have hplain : ¬Ident.QuotesStar ⟨[.name "post", .name "id"]⟩ := by simp [Ident.QuotesStar]
  have hplainSingle : ¬Ident.QuotesStar ⟨[.name "post.id"]⟩ := by simp [Ident.QuotesStar]
  obtain ⟨hiff, -, hdiffer⟩ := (parse_written "post.id").2 _ _ howned hread
  refine ⟨_, _, _, _, howned, hsingle, hread, hiff.2 hplain, ?_, hstar, ?_⟩
  · exact hdiffer _ _ _ hsingle hreadSingle hplain hplainSingle (by simp) 0 none (.inl rfl)
  · exact ((parse_written "post.\"*\"").2 _ _ hstar hreadStar).2.1 rfl

/-- A name that is a star in quotes is written as the wildcard. -/
theorem parse_quotedStar : ∃ column read,
    parse "\"*\"" = .ok column ∧ Ident.parse "\"*\"" = .ok read ∧ ¬read.isStar ∧
    read.toSql = "\"*\"" ∧ Code.print 0 (column.code none) = "*" := by
  refine ⟨⟨none, "*"⟩, ⟨[.name "*"]⟩, by decide +kernel, by decide +kernel, by decide, by decide,
    ?_⟩
  decide

end ColumnRef
end SqlComposer
