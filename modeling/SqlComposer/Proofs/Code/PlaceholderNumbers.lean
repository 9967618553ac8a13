import SqlComposer.Proofs.Call.CheckedQueries
import SqlComposer.Proofs.Mentions.StatementSpelling
import SqlComposer.Proofs.Values.NumeralTexts

/-!
# Placeholders

The placeholders of a text are its dollar signs with the digits behind them. In the text of a
statement the placeholders count through the bound values from left to right: every value with a
place in the text stands behind its own number, and a number is passed over exactly for a value
whose place was dropped with the text around it.
-/

namespace SqlComposer

variable {supplied : Fragment → Prop}

/-- The placeholders of a text: every dollar sign with all digits behind it. -/
def placeholders : List Char → List String
  | [] => []
  | c :: rest =>
    if c = '$' then String.ofList ('$' :: rest.takeWhile Char.isDigit) :: placeholders rest
    else placeholders rest

/-- Whether a text can stand behind a placeholder without going on with its number. -/
def endsNumber (text : List Char) : Bool := !text.head?.any Char.isDigit

def numbered (number : Nat) : String := "$" ++ toString number

/-- The placeholders of the values that have a place, when `bound` values are bound before them. -/
def numberedPlaces (bound : Nat) : List Bool → List String
  | [] => []
  | true :: rest => numbered (bound + 1) :: numberedPlaces (bound + 1) rest
  | false :: rest => numberedPlaces (bound + 1) rest

/-- For every value that is bound for a mention, whether it has a place in the text. -/
def Mention.places : Mention → List Bool
  | .value _ => [true]
  | .lost _ => [false]
  | .fragment raw => List.replicate raw.values.length true
  | _ => []

/-- Whether a value is bound for a mention without a place in the text. -/
def Mention.isLost : Mention → Bool
  | .lost _ => true
  | _ => false

/-! ## What holds no dollar sign -/

/-- No digit follows a single question mark, pairs being taken from the left. -/
def Fragment.marksApart : List Char → Bool
  | [] => true
  | '?' :: '?' :: rest => marksApart rest
  | '?' :: rest => endsNumber rest && marksApart rest
  | _ :: rest => marksApart rest

/-- A fragment without dollar signs in which no digit follows a place for a value. -/
def Fragment.Plain (fragment : Fragment) : Prop :=
  '$' ∉ fragment.sql.toList ∧
    (fragment.values.isEmpty ∨ marksApart fragment.sql.toList)

def JsonKey.Plain : JsonKey → Prop
  | .name text => '$' ∉ text.toList
  | .index _ => True

/-- A name, path or option without dollar signs, or a fragment that is plain or the library's. -/
def Mention.Plain : Mention → Prop
  | .name text | .option text => '$' ∉ text.toList
  | .path keys => ∀ key ∈ keys, key.Plain
  | .fragment raw => raw.Plain ∨ raw.IsLibrary
  | _ => True

/-! ## Scanning -/

theorem placeholders_append {text : List Char} (plain : '$' ∉ text) (rest : List Char) :
    placeholders (text ++ rest) = placeholders rest := by
  induction text with
  | nil => rfl
  | cons c text ih =>
    rw [List.mem_cons, not_or] at plain
    rw [List.cons_append, placeholders, if_neg (Ne.symm plain.1), ih plain.2]

theorem dollar_not_mem_toString (number : Nat) : '$' ∉ (toString number).toList := by
  intro h
  exact absurd (isDigit_of_mem_toString h) (by decide)

theorem placeholders_numbered (number : Nat) {rest : List Char} (ends : endsNumber rest) :
    placeholders ((numbered number).toList ++ rest) = numbered number :: placeholders rest := by
  have hdigits : ((toString number).toList ++ rest).takeWhile Char.isDigit =
      (toString number).toList := by
    rw [List.takeWhile_append_of_pos fun c hc ↦ isDigit_of_mem_toString hc]
    have hrest : rest.takeWhile Char.isDigit = [] := by
      cases rest with
      | nil => rfl
      | cons c rest =>
        rw [List.takeWhile_cons_of_neg]
        simpa [endsNumber] using ends
    rw [hrest, List.append_nil]
  have htext : (numbered number).toList = '$' :: (toString number).toList := by
    simp [numbered]
  rw [htext, List.cons_append, placeholders, if_pos rfl, hdigits,
    placeholders_append (dollar_not_mem_toString number)]
  rw [← htext, String.ofList_toList]

theorem numberedPlaces_append (bound : Nat) (first second : List Bool) :
    numberedPlaces bound (first ++ second) =
      numberedPlaces bound first ++ numberedPlaces (bound + first.length) second := by
  induction first generalizing bound with
  | nil => rfl
  | cons kept rest ih =>
    have hnext : bound + (rest.length + 1) = bound + 1 + rest.length := by omega
    cases kept <;>
      simp only [List.cons_append, numberedPlaces, ih, List.length_cons, hnext]

theorem Mention.length_places (mention : Mention) :
    mention.places.length = mention.values.length := by
  cases mention <;> simp [places, values]

/-- Places and values correspond. -/
theorem Mention.length_flatMap_places (mentions : List Mention) :
    (mentions.flatMap Mention.places).length = (mentions.flatMap Mention.values).length := by
  simp only [List.length_flatMap, Mention.length_places]

/-! ## Fragments -/

namespace Fragment

theorem marksApart_single {text : List Char} (single : ∀ others, text ≠ '?' :: others) :
    marksApart ('?' :: text) = (endsNumber text && marksApart text) := by
  rw [marksApart]
  exact single

theorem marksApart_other {c : Char} {text : List Char} (other : c ≠ '?') :
    marksApart (c :: text) = marksApart text := by
  rw [marksApart]
  · exact fun _ h ↦ absurd h other
  · exact other

theorem countMarks_eq_of_sound {fragment : Fragment} (sound : fragment.fault? = none)
    (filled : ¬fragment.values.isEmpty) :
    countMarks fragment.sql.toList = fragment.values.length := by
  unfold fault? at sound
  simp only [filled, Bool.false_eq_true, false_or] at sound
  split at sound
  · assumption
  · simp at sound

/-- Behind a mark that takes a value the text does not go on with a digit. -/
theorem endsNumber_expand (bound : Nat) {text : List Char} {values : List Literal}
    (start : endsNumber text) (marks : countMarks text = values.length) {rest : List Char}
    (ends : endsNumber rest) :
    endsNumber ((Code.print bound (expand [] text values)).toList ++ rest) := by
  generalize hread : ([] : List Char) = read
  induction read, text, values using expand.induct with
  | case1 read values =>
    rw [expand, print_spliced, ← hread]
    exact ends
  | case2 read text values =>
    rw [expand, print_expand, ← hread]
    rfl
  | case3 read text single =>
    rw [countMarks_single single] at marks
    simp at marks
  | case4 read text value values single =>
    rw [expand, Code.print_append, String.toList_append, print_spliced, ← hread]
    · rw [Code.print, Piece.print, String.toList_append, String.toList_append]
      rfl
    · exact single
  | case5 read c text values notDoubled notMark notLast =>
    rw [expand, print_expand, ← hread]
    · exact start
    · exact notDoubled
    · exact notMark
    · exact notLast

/-- The placeholders of an expanded text number its values in order. -/
private theorem placeholders_expand (bound : Nat) {read text : List Char} {values : List Literal}
    (plainRead : '$' ∉ read) (plain : '$' ∉ text) (apart : marksApart text)
    (marks : countMarks text = values.length) {rest : List Char} (ends : endsNumber rest) :
    placeholders ((Code.print bound (expand read text values)).toList ++ rest) =
      numberedPlaces bound (List.replicate values.length true) ++ placeholders rest := by
  induction read, text, values using expand.induct generalizing bound with
  | case1 read values =>
    have hvalues : values.length = 0 := marks.symm
    rw [expand, print_spliced, hvalues]
    exact placeholders_append (by simpa using plainRead) rest
  | case2 read text values ih =>
    simp only [List.mem_cons, not_or] at plain
    rw [expand]
    exact ih bound (by simpa using plainRead) plain.2.2 apart marks
  | case3 read text single =>
    rw [countMarks_single single] at marks
    simp at marks
  | case4 read text value values single ih =>
    rw [List.mem_cons, not_or] at plain
    rw [marksApart_single single, Bool.and_eq_true] at apart
    rw [countMarks_single single, List.length_cons, Nat.add_right_cancel_iff] at marks
    have hends := endsNumber_expand (bound + 1) apart.1 marks ends
    have hrest := ih (bound + 1) (by simp) plain.2 apart.2 marks
    rw [expand, Code.print_append, String.toList_append, print_spliced, values_spliced,
      List.append_assoc, placeholders_append (by simpa using plainRead)]
    · rw [Code.print, String.toList_append, List.append_assoc]
      have hmark := placeholders_numbered (bound + 1) hends
      rw [hrest] at hmark
      exact hmark
    · exact single
  | case5 read c text values notDoubled notMark notLast ih =>
    rw [List.mem_cons, not_or] at plain
    have hother : c ≠ '?' := by
      intro h
      cases values <;> simp_all
    rw [marksApart_other hother] at apart
    rw [countMarks_other hother] at marks
    rw [expand]
    · exact ih bound (by simpa using ⟨plain.1, plainRead⟩) plain.2 apart marks
    · exact notDoubled
    · exact notMark
    · exact notLast

/-- The placeholders of a fragment number its values in order. -/
theorem placeholders_pieces (bound : Nat) {fragment : Fragment} (sound : fragment.fault? = none)
    (plain : fragment.Plain) {rest : List Char} (ends : endsNumber rest) :
    placeholders ((Code.print bound fragment.pieces).toList ++ rest) =
      numberedPlaces bound (List.replicate fragment.values.length true) ++ placeholders rest := by
  unfold pieces
  split
  · rename_i hempty
    rw [List.isEmpty_iff.1 hempty]
    have htext : (Code.print bound [.splice fragment.sql]).toList = fragment.sql.toList := by
      simp [Code.print, Piece.print]
    rw [htext]
    exact placeholders_append plain.1 rest
  · rename_i hfilled
    have apart := plain.2.resolve_left hfilled
    exact placeholders_expand bound (by simp) plain.1 apart
      (countMarks_eq_of_sound sound hfilled) ends

end Fragment

/-! ## Code -/

/-- Text behind a piece does not go on with a number. -/
theorem Code.endsNumber_print (bound : Nat) {code : Code} (lead : code.led) {rest : List Char}
    (ends : endsNumber rest) : endsNumber ((Code.print bound code).toList ++ rest) := by
  cases code with
  | nil => exact ends
  | cons piece code =>
    cases piece with
    | word word =>
      rw [Code.print, Piece.print, String.toList_append]
      rw [Code.led_word] at lead
      cases hword : word.toList with
      | nil => simp [hword] at lead
      | cons c text =>
        simp only [hword, List.head?_cons, Option.any_some, Code.separates,
          Bool.and_eq_true] at lead
        simpa [endsNumber] using lead.2
    | _ => simp [Code.led] at lead

/-! ## Words and texts without dollar signs -/

theorem dollar_not_mem_vocabulary {word : String} (known : word ∈ Code.vocabulary) :
    '$' ∉ word.toList := fun h ↦ Code.not_mem_of_mem_vocabulary known '$' h List.mem_cons_self

theorem dollar_not_mem_functionName {name : String} (form : isFunctionName name) :
    '$' ∉ name.toList := by
  unfold isFunctionName at form
  split at form
  · simp at form
  · rename_i c rest hname
    rw [Bool.and_eq_true, List.all_eq_true] at form
    rw [hname, List.mem_cons, not_or]
    constructor
    · rintro rfl
      exact absurd form.1 (by decide)
    · exact fun h ↦ absurd (form.2 '$' h) (by decide)

theorem dollar_not_mem_format {word : String} (form : CopyOptions.isFormat word) :
    '$' ∉ word.toList := by
  unfold CopyOptions.isFormat at form
  rw [Bool.and_eq_true, List.all_eq_true] at form
  exact fun h ↦ absurd (form.2 '$' h) (by decide)

private theorem dollar_not_mem_element {key : JsonKey} (plain : key.Plain) :
    '$' ∉ key.element.toList := by
  cases key with
  | name text =>
    unfold JsonKey.element
    dsimp only
    split
    · exact plain
    · have hescaped : '$' ∉ text.toList.flatMap JsonKey.escaped := by
        rw [List.mem_flatMap]
        rintro ⟨c, hc, hmem⟩
        unfold JsonKey.escaped at hmem
        have hother : '$' ≠ c := fun h ↦ plain (h ▸ hc)
        split at hmem
        · simp only [List.mem_cons, List.not_mem_nil, or_false] at hmem
          exact hmem.elim (by decide) hother
        · exact hother (List.mem_singleton.1 hmem)
      simpa using hescaped
  | index position =>
    intro h
    have hnumeral := isNumeralText_int position
    exact absurd (List.all_eq_true.1 hnumeral '$' h) (by decide)

theorem dollar_not_mem_array {path : List JsonKey} (plain : ∀ key ∈ path, key.Plain) :
    '$' ∉ (JsonKey.array path).toList := by
  have helements : ∀ c ∈ (", ".intercalate (path.map JsonKey.element)).toList, c ≠ '$' := by
    apply Code.forall_mem_intercalate
    · simp
    · intro text htext c hc hdollar
      obtain ⟨key, hkey, rfl⟩ := List.mem_map.1 htext
      exact dollar_not_mem_element (plain key hkey) (hdollar ▸ hc)
  intro h
  simp only [JsonKey.array, String.toList_append, List.mem_append] at h
  rcases h with (h | h) | h
  · exact absurd h (by decide)
  · exact helements '$' h rfl
  · exact absurd h (by decide)

theorem dollar_not_mem_name {text : String} (plain : (Mention.name text).Plain) :
    '$' ∉ (quoteName text).toList := not_mem_enclosed (by decide) plain

theorem dollar_not_mem_column (bound : Nat) {owner : Option String} {column : String}
    (plain : ∀ mention ∈ (ColumnRef.unqualified column).mentions owner, mention.Plain) :
    '$' ∉ (Code.print bound (Code.ofColumn owner column)).toList := by
  have hcolumn : '$' ∉ (Code.print bound
      [if (ColumnRef.unqualified column).isStar then .word "*" else .name column]).toList := by
    split
    · simp [Code.print, Piece.print]
    · rename_i hstar
      simp only [Code.print, Piece.print, String.append_empty]
      apply dollar_not_mem_name
      apply plain
      rw [ColumnRef.mentions, if_neg hstar]
      exact List.mem_append_right _ List.mem_cons_self
  cases owner with
  | none => exact hcolumn
  | some label =>
    have hlabel : (Mention.name label).Plain := by
      apply plain
      simp [ColumnRef.mentions, ColumnRef.unqualified]
    simp only [Code.ofColumn, ColumnRef.code, ColumnRef.unqualified, Option.map_some,
      Code.print_append, String.toList_append, List.mem_append, not_or]
    refine ⟨?_, hcolumn⟩
    simp only [Code.print, Piece.print, String.append_empty, String.toList_append, List.mem_append,
      not_or]
    exact ⟨dollar_not_mem_name hlabel, by decide⟩

private theorem Fragment.plain_verbatim {sql : String} (plain : '$' ∉ sql.toList) :
    (verbatim sql).Plain := ⟨plain, .inl rfl⟩

theorem Fragment.IsLibrary.plain {fragment : Fragment} (library : fragment.IsLibrary) :
    fragment.Plain := by
  cases library with
  | number h =>
    apply Fragment.plain_verbatim
    intro hdollar
    rcases isNumeralText_json h with rfl | hnumeral
    · exact absurd hdollar (by decide)
    · exact absurd (List.all_eq_true.1 hnumeral '$' hdollar) (by decide)
  | rows shape =>
    apply Fragment.plain_verbatim
    cases shape <;> decide +kernel

/-! ## Spelled code -/

namespace Spells

/-- What scanning the text of code finds, whatever stands behind it. -/
def Counts (code : Code) (mentions : List Mention) : Prop :=
  ∀ (bound : Nat) {rest : List Char}, endsNumber rest →
    placeholders ((Code.print bound code).toList ++ rest) =
      numberedPlaces bound (mentions.flatMap Mention.places) ++ placeholders rest

variable {code : Code} {mentions : List Mention}

/-- A text without placeholders in front. -/
private theorem Counts.behind {piece : Piece} (counts : Counts code mentions)
    (text : ∀ bound, '$' ∉ (piece.print bound).toList) (values : piece.values = []) :
    Counts (piece :: code) mentions := by
  intro bound rest ends
  rw [Code.print, values, String.toList_append, List.append_assoc, placeholders_append (text bound)]
  exact counts bound ends

private theorem places_columns (columns : List String) (owner : Option String) :
    (columns.flatMap fun column ↦ (ColumnRef.unqualified column).mentions owner).flatMap
      Mention.places = [] := by
  rw [List.flatMap_assoc, List.flatMap_eq_nil_iff]
  intro column _
  rw [ColumnRef.mentions, List.flatMap_append, List.append_eq_nil_iff]
  constructor
  · simp [List.flatMap_map, Mention.places]
  · split <;> simp [Mention.places]

theorem columnTexts_eq (bound : Nat) (columns : List String) (owner : Option String) :
    Code.itemTexts bound (columns.map (Code.ofColumn owner)) =
      columns.map fun column ↦ Code.print 0 (Code.ofColumn owner column) := by
  have htexts := Code.itemTexts_columns bound (columns.map ColumnRef.unqualified) owner
  rwa [List.map_map, List.map_map] at htexts

/-- Items and missing columns, separated by commas. -/
private theorem placeholders_items {items : List (Code × List Mention)} {missing : List String}
    (counts : ∀ item ∈ items, Counts item.1 item.2)
    (values : ∀ item ∈ items, Code.values item.1 = item.2.flatMap Mention.values)
    (plain : ∀ text ∈ missing, '$' ∉ text.toList) (bound : Nat) {rest : List Char}
    (ends : endsNumber rest) :
    placeholders ((", ".intercalate
        (Code.itemTexts bound (items.map Prod.fst) ++ missing)).toList ++ rest) =
      numberedPlaces bound ((items.flatMap Prod.snd).flatMap Mention.places) ++
        placeholders rest := by
  induction items generalizing bound with
  | nil =>
    apply placeholders_append
    intro h
    have hall : ∀ c ∈ (", ".intercalate missing).toList, c ≠ '$' := by
      apply Code.forall_mem_intercalate
      · simp
      · exact fun text htext c hc hdollar ↦ plain text htext (hdollar ▸ hc)
    exact hall '$' h rfl
  | cons item items ih =>
    rw [List.forall_mem_cons] at counts values
    have hlength : (Code.values item.1).length = (item.2.flatMap Mention.places).length := by
      rw [values.1, Mention.length_flatMap_places]
    rw [List.map_cons, Code.itemTexts, List.flatMap_cons, List.flatMap_append,
      numberedPlaces_append, ← hlength, List.append_assoc, List.cons_append]
    have hothers := ih counts.2 values.2 (bound + (Code.values item.1).length)
    by_cases hlast : Code.itemTexts (bound + (Code.values item.1).length) (items.map Prod.fst) ++
        missing = []
    · rw [hlast] at hothers ⊢
      rw [String.intercalate_singleton, counts.1 bound ends, ← hothers]
      rfl
    · rw [String.intercalate_cons_of_ne_nil hlast, String.toList_append, String.toList_append,
        List.append_assoc, List.append_assoc, counts.1 bound (by rfl),
        placeholders_append (by decide), hothers]

/-- The placeholders of spelled code count through the values of what it mentions. -/
theorem placeholders_print {raw : Fragment → Prop} (h : Spells raw code mentions)
    (plain : ∀ mention ∈ mentions, mention.Plain) : Counts code mentions := by
  induction h with
  | nil => exact fun bound rest _ ↦ rfl
  | word known _ ih =>
    exact (ih plain).behind (fun _ ↦ dollar_not_mem_vocabulary known) rfl
  | function form _ ih =>
    rw [List.forall_mem_cons] at plain
    exact (ih plain.2).behind (fun _ ↦ dollar_not_mem_functionName form) rfl
  | format form _ ih =>
    rw [List.forall_mem_cons] at plain
    exact (ih plain.2).behind (fun _ ↦ dollar_not_mem_format form) rfl
  | name _ _ ih =>
    rw [List.forall_mem_cons] at plain
    exact (ih plain.2).behind (fun _ ↦ dollar_not_mem_name plain.1) rfl
  | constant known _ _ ih =>
    rw [List.forall_mem_cons] at plain
    rw [Code.constants, List.mem_singleton] at known
    exact (ih plain.2).behind (fun _ ↦ not_mem_enclosed (by decide) (by simp [known])) rfl
  | path _ _ ih =>
    rw [List.forall_mem_cons] at plain
    have hpath := dollar_not_mem_array plain.1
    exact (ih plain.2).behind (fun _ ↦ not_mem_enclosed (by decide) hpath) rfl
  | option _ _ ih =>
    rw [List.forall_mem_cons] at plain
    exact (ih plain.2).behind (fun _ ↦ not_mem_enclosed (by decide) plain.1) rfl
  | value lead _ ih =>
    intro bound rest ends
    rw [List.forall_mem_cons] at plain
    have hends := Code.endsNumber_print (bound + 1) lead ends
    have hmark := placeholders_numbered (bound + 1) hends
    rw [ih plain.2 (bound + 1) ends] at hmark
    rw [Code.print, String.toList_append, List.append_assoc]
    exact hmark
  | lost _ ih =>
    intro bound rest ends
    rw [List.forall_mem_cons] at plain
    have hrest := ih plain.2 (bound + 1) ends
    rw [Code.print, String.toList_append, List.append_assoc]
    exact hrest
  | @fragment fragment code mentions sound _ lead _ ih =>
    intro bound rest ends
    rw [List.forall_mem_cons] at plain
    have hplain : fragment.Plain := plain.1.elim id Fragment.IsLibrary.plain
    have hends := Code.endsNumber_print (bound + fragment.values.length) lead ends
    rw [Code.print_append, values_pieces sound, String.toList_append, List.append_assoc,
      Fragment.placeholders_pieces bound sound hplain hends, ih plain.2 _ ends,
      List.flatMap_cons, numberedPlaces_append, List.append_assoc, Mention.places,
      List.length_replicate]
  | @returned items owner columns missing code mentions spelled apart decided lead _ ihitems ih =>
    intro bound rest ends
    simp only [List.forall_mem_append] at plain
    obtain ⟨⟨plainItems, plainColumns⟩, plainRest⟩ := plain
    have hcounts (item) (hitem : item ∈ items) : Counts item.1 item.2 :=
      ihitems item hitem fun mention hmention ↦
        plainItems mention (List.mem_flatMap.2 ⟨item, hitem, hmention⟩)
    have hends := Code.endsNumber_print
      (bound + ((items.flatMap Prod.snd).flatMap Mention.places).length) lead ends
    have htexts (text) (htext : text ∈ (((columns.map fun column ↦ Code.print 0
        (Code.ofColumn owner column)).filter
          (· ∉ Code.itemTexts bound (items.map Prod.fst))).eraseDups)) : '$' ∉ text.toList := by
      rw [List.mem_eraseDups, List.mem_filter, List.mem_map] at htext
      obtain ⟨⟨column, hcolumn, rfl⟩, hnew⟩ := htext
      have hmissing : missing column = true := by
        rw [decided column hcolumn]
        intro hitem
        obtain ⟨before, hbefore⟩ := Code.exists_print_mem_itemTexts bound hitem
        rw [Code.ofColumn, Code.print_column] at hbefore
        simp [Code.ofColumn, hbefore] at hnew
      apply dollar_not_mem_column
      intro mention hmention
      apply plainColumns
      rw [List.mem_flatMap]
      exact ⟨column, List.mem_eraseDups.2 (List.mem_filter.2 ⟨hcolumn, hmissing⟩), hmention⟩
    have hspelled (item) (hitem : item ∈ items) := (spelled item hitem).values_eq
    have hitems := placeholders_items hcounts hspelled htexts bound hends
    have hvalues : (Piece.itemsThenMissing (items.map Prod.fst)
        (columns.map (Code.ofColumn owner))).values = _ := values_returned hspelled
    rw [Code.print, hvalues, ← Mention.length_flatMap_places, Piece.print, columnTexts_eq,
      Code.withMissing_eq, String.toList_append, List.append_assoc, hitems, ih plainRest _ ends,
      List.flatMap_append, List.flatMap_append, places_columns, List.append_nil,
      numberedPlaces_append, List.append_assoc]

end Spells

/-! ## Queries -/

/-- Values that all have a place stand behind consecutive numbers. -/
theorem numberedPlaces_replicate (bound count : Nat) :
    numberedPlaces bound (List.replicate count true) =
      (List.range' (bound + 1) count).map numbered := by
  induction count generalizing bound with
  | zero => rfl
  | succ count ih =>
    rw [List.replicate_succ, numberedPlaces, ih, List.range'_succ, List.map_cons]

theorem length_numberedPlaces (bound : Nat) (places : List Bool) :
    (numberedPlaces bound places).length = places.countP id := by
  induction places generalizing bound with
  | nil => rfl
  | cons kept rest ih => cases kept <;> simp [numberedPlaces, ih]

/-- The numbers run through without a gap exactly if every value has a place. -/
theorem numberedPlaces_eq_iff (places : List Bool) :
    numberedPlaces 0 places = (List.range' 1 places.length).map numbered ↔
      ∀ kept ∈ places, kept = true := by
  constructor
  · intro h
    have hlength := congrArg List.length h
    rw [length_numberedPlaces, List.length_map, List.length_range',
      List.countP_eq_length] at hlength
    simpa using hlength
  · intro h
    rw [List.eq_replicate_of_mem h, numberedPlaces_replicate, List.length_replicate]

theorem Mention.places_kept_iff (mentions : List Mention) :
    (∀ kept ∈ mentions.flatMap places, kept = true) ↔
      ∀ mention ∈ mentions, mention.isLost = false := by
  constructor
  · intro h mention hmention
    cases mention with
    | lost value =>
      have hlost : false ∈ mentions.flatMap places :=
        List.mem_flatMap.2 ⟨.lost value, hmention, List.mem_cons_self⟩
      exact absurd (h false hlost) (by decide)
    | _ => rfl
  · intro h kept hkept
    obtain ⟨mention, hmention, hplace⟩ := List.mem_flatMap.1 hkept
    have hpresent := h mention hmention
    cases mention with
    | value literal => exact List.mem_singleton.1 hplace
    | lost literal => simp [isLost] at hpresent
    | fragment raw => exact List.eq_of_mem_replicate hplace
    | _ => simp [places] at hplace

/-- The placeholders of a query count through its values from left to right. They run from one to
the number of values without a gap exactly if no value lost its place, as it does when an aggregate
that binds values is compared with an empty list. -/
theorem Query.placeholders_compile {query : Query} (reached : query.Reachable supplied)
    (plain : ∀ mention ∈ query.statement.mentions, mention.Plain) {sql : CompiledSql}
    (compiled : query.compile = .ok sql) :
    placeholders sql.text.toList =
        numberedPlaces 0 (query.statement.mentions.flatMap Mention.places) ∧
      sql.values = query.statement.mentions.flatMap Mention.values ∧
      (placeholders sql.text.toList = (List.range' 1 sql.values.length).map numbered ↔
        ∀ mention ∈ query.statement.mentions, mention.isLost = false) := by
  obtain ⟨code, hcode, rfl⟩ := map_eq_ok.1 compiled
  have spelled := reached.checked.spelled code hcode
  have hvalues : Code.values code = query.statement.mentions.flatMap Mention.values :=
    spelled.values_eq
  have hplaces : placeholders (Code.print 0 code).toList =
      numberedPlaces 0 (query.statement.mentions.flatMap Mention.places) := by
    have hcounts := spelled.placeholders_print plain
    have hscanned := @hcounts 0 [] rfl
    simpa [placeholders] using hscanned
  refine ⟨hplaces, hvalues, ?_⟩
  rw [Code.compile, hplaces, hvalues, ← Mention.length_flatMap_places, numberedPlaces_eq_iff,
    Mention.places_kept_iff]

def Query.betweenAges : Query :=
  ((Query.ofTable (.named "user")).filter
    (.raw ⟨"age BETWEEN ? AND ?", [.int 18, .int 65]⟩)).limit 10

theorem Query.reachable_betweenAges : betweenAges.Reachable fun _ ↦ True := by
  have hstart : (Query.ofTable (.named "user")).Reachable fun _ ↦ True := .ofTable _ none none
  have hfiltered := @Reachable.call _ _ _ (.filter (.raw ⟨"age BETWEEN ? AND ?",
    [.int 18, .int 65]⟩)) (fun _ ↦ False) hstart trivial (by simp) rfl
  exact @Reachable.call _ _ _ (.limit 10) (fun _ ↦ False) hfiltered trivial (by simp) rfl

theorem Query.plain_betweenAges :
    ∀ mention ∈ betweenAges.statement.mentions, mention.Plain := by
  have hmentions : betweenAges.statement.mentions =
      [.name "user", .name "user", .fragment ⟨"age BETWEEN ? AND ?", [.int 18, .int 65]⟩,
        .value (.int 10)] := rfl
  rw [hmentions]
  simp only [List.forall_mem_cons, Mention.Plain, Fragment.Plain]
  exact ⟨by decide, by decide, .inl ⟨by decide, .inr (by decide)⟩, trivial, by simp⟩

/-- Two values in a fragment and one behind it. -/
theorem Query.placeholders_betweenAges :
    ∃ sql, betweenAges.compile = .ok sql ∧ sql.values = [.int 18, .int 65, .int 10] ∧
      placeholders sql.text.toList = (List.range' 1 3).map numbered := by
  have hcode : betweenAges.statement.code =
      .ok [.word "SELECT ", .name "user", .word ".*", .word " FROM ", .name "user",
        .word " WHERE ", .splice "age BETWEEN ", .bind (.int 18), .splice " AND ",
        .bind (.int 65), .word " LIMIT ", .bind (.int 10)] := rfl
  have hcompiled := congrArg (Except.map Code.compile) hcode
  have hexact := (placeholders_compile reachable_betweenAges plain_betweenAges hcompiled).2.2
  refine ⟨_, hcompiled, rfl, hexact.2 ?_⟩
  have hkept : betweenAges.statement.mentions.all fun mention ↦ !mention.isLost := rfl
  simpa using hkept

/-- Users grouped on condition that the number of adults among them is in an empty list. -/
def Query.amongNone : Query :=
  (Query.ofTable (.named "user")).having <| .aggregate
    ⟨"count", some ⟨none, "id"⟩, false, [], false,
      ⟨[[.compare ⟨none, "age"⟩ .gt (.term (.literal (.int 18)))]]⟩⟩
    .in (.list [])

theorem Query.reachable_amongNone : amongNone.Reachable fun _ ↦ True := by
  have hstart : (Query.ofTable (.named "user")).Reachable fun _ ↦ True := .ofTable _ none none
  refine @Reachable.call _ _ _ (.having (.aggregate ⟨"count", some ⟨none, "id"⟩, false, [], false,
    ⟨[[.compare ⟨none, "age"⟩ .gt (.term (.literal (.int 18)))]]⟩⟩ .in (.list [])))
    (fun _ ↦ False) hstart ?_ (by simp) rfl
  refine ⟨⟨by decide, by simp, ⟨trivial, trivial⟩, trivial⟩, ?_⟩
  simp [Comparand.Checked]

/-- The aggregate gives way to a constant, and the value in its filter stays bound without a
placeholder. -/
theorem Query.placeholders_amongNone :
    amongNone.Reachable (fun _ ↦ True) ∧
      (∀ mention ∈ amongNone.statement.mentions, mention.Plain) ∧
      ∃ sql, amongNone.compile = .ok sql ∧ sql.values.length = 1 ∧
        placeholders sql.text.toList = [] := by
  refine ⟨reachable_amongNone, ?_, ?_⟩
  · have hmentions : amongNone.statement.mentions =
        [.name "user", .name "user", .lost (.int 18)] := rfl
    rw [hmentions]
    simp only [List.forall_mem_cons, Mention.Plain]
    exact ⟨by decide, by decide, trivial, by simp⟩
  · have hcode : amongNone.statement.code =
        .ok [.word "SELECT ", .name "user", .word ".*", .word " FROM ", .name "user",
          .word " HAVING ", .unused (.int 18), .word "1=0"] := rfl
    exact ⟨_, congrArg (Except.map Code.compile) hcode, rfl, by decide +kernel⟩

end SqlComposer
