import SqlComposer.Proofs.Call.MethodResults
import SqlComposer.Proofs.Code.QuotedNames
import SqlComposer.Proofs.Statement.FoldedClauses
import SqlComposer.Proofs.Statement.WrittenChanges

/-!
# Calls in another order

Most calls on a selection write one clause and read no other, so two calls that write different
clauses may be made in either order. The exception is a join of two columns: the table of its right
column, where none is given, is the one the query has at that moment, and not the one it is written
with. A name that is given to the table later does not reach it.
-/

namespace SqlComposer

/-! ## Clauses -/

/-- A clause that is written on its own. -/
inductive Slot where
  | label
  | selection
  | distinct
  | joins
  | filter
  | groups
  | having
  | windows
  | commonTables
  | combinations
  | order
  | limit
  | offset
  | lock
  | shape
  deriving DecidableEq

namespace Slot

/-- What stands in a clause. The items of a selection come with the mark for all columns. -/
abbrev Content : Slot → Type
  | label => Option String
  | selection => List (SelectItem Statement) × Bool
  | distinct => Option (List ColumnRef)
  | joins => List (Join Statement)
  | filter | having => Filter Statement
  | groups => List GroupItem
  | windows => List (String × Window)
  | commonTables => List (CommonTable Statement)
  | combinations => List (Combination Statement)
  | order => List OrderItem
  | limit | offset => Option Int
  | lock => Option RowLock
  | shape => Shape

def read (clauses : Clauses Statement) : (slot : Slot) → slot.Content
  | label => clauses.label
  | selection => (clauses.selection, clauses.selectsAll)
  | distinct => clauses.distinct
  | joins => clauses.joins
  | filter => clauses.filter
  | groups => clauses.groups
  | having => clauses.having
  | windows => clauses.windows
  | commonTables => clauses.commonTables
  | combinations => clauses.combinations
  | order => clauses.order
  | limit => clauses.limit
  | offset => clauses.offset
  | lock => clauses.lock
  | shape => clauses.shape

def write (clauses : Clauses Statement) : (slot : Slot) → slot.Content → Clauses Statement
  | label, content => { clauses with label := content }
  | selection, content => { clauses with selection := content.1, selectsAll := content.2 }
  | distinct, content => { clauses with distinct := content }
  | joins, content => { clauses with joins := content }
  | filter, content => { clauses with filter := content }
  | groups, content => { clauses with groups := content }
  | having, content => { clauses with having := content }
  | windows, content => { clauses with windows := content }
  | commonTables, content => { clauses with commonTables := content }
  | combinations, content => { clauses with combinations := content }
  | order, content => { clauses with order := content }
  | limit, content => { clauses with limit := content }
  | offset, content => { clauses with offset := content }
  | lock, content => { clauses with lock := content }
  | shape, content => { clauses with shape := content }

variable {slot other : Slot} (clauses : Clauses Statement)

theorem read_write_of_ne (apart : slot ≠ other) (content : other.Content) :
    slot.read (other.write clauses content) = slot.read clauses := by
  cases slot <;> cases other <;> first | rfl | exact absurd rfl apart

/-- Writing two different slots commutes. -/
theorem write_write_of_ne (apart : slot ≠ other) (content : slot.Content) (rest : other.Content) :
    slot.write (other.write clauses rest) content =
      other.write (slot.write clauses content) rest := by
  cases slot <;> cases other <;> first | exact absurd rfl apart | simp only [write]

end Slot

/-! ## Calls -/

namespace Call

/-- The clause that a call on a selection writes. -/
def slot? : Call → Option Slot
  | as _ => some .label
  | select _ | selectAs _ _ | selectRaw _ _ => some .selection
  | distinct | distinctOn _ => some .distinct
  | join _ _ _ _ | joinOn _ _ _ | crossJoin _ => some .joins
  | filter _ | orFilter _ | filterJson _ => some .filter
  | group _ => some .groups
  | having _ | havingAny _ => some .having
  | window _ _ => some .windows
  | withQuery _ _ _ | withRaw _ _ _ => some .commonTables
  | combine _ _ _ | combineRaw _ _ _ => some .combinations
  | order _ _ | orderRaw _ => some .order
  | limit _ => some .limit
  | offset _ => some .offset
  | lock _ => some .lock
  | take => some .shape
  | _ => none

/-- Whether a call refers to columns by the name the table has when it is made. -/
def usesName : Call → Bool
  | join _ _ _ _ => true
  | _ => false

variable {call : Call} {query next : Query} {slot : Slot}

/-- A call that writes a clause leaves all others as they are. -/
theorem eq_of_slot? (writes : call.slot? = some slot) (done : call.apply query = .ok next) :
    next = query.modify fun clauses ↦ slot.write clauses (slot.read next.clauses) := by
  cases call with
  | as | selectRaw | distinct | joinOn | crossJoin | filter | orFilter | having | havingAny
  | window | withQuery | withRaw | combine | combineRaw | orderRaw | limit | offset | lock
  | take =>
    cases writes
    cases done
    rfl
  | select | selectAs | filterJson | group | order =>
    cases writes
    obtain ⟨_, _, done⟩ := bind_eq_ok.1 done
    cases done
    rfl
  | distinctOn =>
    cases writes
    obtain ⟨_, _, _, rfl⟩ := Query.distinctOn_eq_ok.1 done
    rfl
  | join =>
    cases writes
    simp only [apply, Query.join, bind_eq_ok, pure_eq_ok] at done
    obtain ⟨_, _, _, _, rfl⟩ := done
    rfl
  | _ => cases writes

/-- What a call writes depends on what stood in its clause, on the catalog and, if it refers to
columns by it, on the name of the table. -/
theorem exists_apply_of_read_eq {other : Query} (writes : call.slot? = some slot)
    (done : call.apply query = .ok next) (catalog : other.catalog = query.catalog)
    (content : slot.read other.clauses = slot.read query.clauses)
    (name : call.usesName → other.clauses.aliasName = query.clauses.aliasName) :
    ∃ result, call.apply other = .ok result ∧
      slot.read result.clauses = slot.read next.clauses := by
  have happended {Item : Type} {items others : List Item} (h : items = others)
      (added : List Item) : items ++ added = others ++ added := by rw [h]
  have hselected {chosen selected : List (SelectItem Statement) × Bool} (h : chosen = selected)
      (items : List (SelectItem Statement)) :
      (chosen.1 ++ items, false) = (selected.1 ++ items, false) := by rw [h]
  have hresolved (target : JoinTarget Statement) :
      other.resolved target = query.resolved target := by
    unfold Query.resolved
    rw [catalog]
  cases call with
  | as | distinct | limit | offset | lock | take =>
    cases writes
    cases done
    exact ⟨_, rfl, rfl⟩
  | selectRaw fragment label =>
    cases writes
    cases done
    exact ⟨_, rfl, hselected content _⟩
  | window | withQuery | withRaw | combine | combineRaw | orderRaw =>
    cases writes
    cases done
    exact ⟨_, rfl, happended content _⟩
  | filter condition | having condition =>
    cases writes
    cases done
    exact ⟨_, rfl, congrArg (Filter.and · condition) content⟩
  | orFilter condition =>
    cases writes
    cases done
    exact ⟨_, rfl, congrArg (Filter.or · condition) content⟩
  | havingAny conditions =>
    cases writes
    cases done
    exact ⟨_, rfl, congrArg (conditions.foldl Filter.or) content⟩
  | joinOn kind target condition =>
    cases writes
    cases done
    refine ⟨_, rfl, (happended content _).trans ?_⟩
    rw [hresolved]
    rfl
  | crossJoin target =>
    cases writes
    cases done
    refine ⟨_, rfl, (happended content _).trans ?_⟩
    rw [hresolved]
    rfl
  | select | selectAs =>
    cases writes
    obtain ⟨items, hitems, done⟩ := bind_eq_ok.1 done
    cases done
    exact ⟨_, bind_eq_ok.2 ⟨items, hitems, rfl⟩, hselected content _⟩
  | group | order =>
    cases writes
    obtain ⟨items, hitems, done⟩ := bind_eq_ok.1 done
    cases done
    exact ⟨_, bind_eq_ok.2 ⟨items, hitems, rfl⟩, happended content _⟩
  | filterJson =>
    cases writes
    obtain ⟨condition, hcondition, done⟩ := bind_eq_ok.1 done
    cases done
    exact ⟨_, bind_eq_ok.2 ⟨condition, hcondition, rfl⟩,
      congrArg (Filter.and · condition) content⟩
  | distinctOn =>
    cases writes
    obtain ⟨columns, hcolumns, hsome, rfl⟩ := Query.distinctOn_eq_ok.1 done
    exact ⟨_, Query.distinctOn_eq_ok.2 ⟨columns, hcolumns, hsome, rfl⟩, rfl⟩
  | join =>
    cases writes
    simp only [apply, Query.join, bind_eq_ok, pure_eq_ok] at done ⊢
    obtain ⟨left, hleft, right, hright, rfl⟩ := done
    rw [name rfl, hresolved]
    exact ⟨_, ⟨left, hleft, right, hright, rfl⟩, happended content _⟩
  | _ => cases writes

end Call

/-! ## Two calls -/

namespace Query

variable {query left right : Query} {first second : Call} {here there : Slot}

/-- A call is accepted behind another one that writes another clause, and writes what it writes
without it, unless it needs the name that the other one gives. -/
theorem exists_apply_behind (writes : first.slot? = some here) (done : first.apply query = .ok left)
    (behind : second.slot? = some there) (accepted : second.apply query = .ok right)
    (apart : here ≠ there) (blind : second.usesName → here ≠ .label) :
    ∃ result, second.apply left = .ok result ∧
      result = query.modify fun clauses ↦ there.write
        (here.write clauses (here.read left.clauses)) (there.read right.clauses) := by
  have hleft := first.eq_of_slot? writes done
  have hcontent : there.read left.clauses = there.read query.clauses := by
    rw [hleft]
    exact Slot.read_write_of_ne _ apart.symm _
  have hname (uses : second.usesName) :
      left.clauses.aliasName = query.clauses.aliasName := by
    have hlabel : left.clauses.label = query.clauses.label := by
      rw [hleft]
      exact Slot.read_write_of_ne _ (blind uses).symm _
    have htable : left.clauses.table = query.clauses.table := by
      rw [hleft]
      cases here <;> rfl
    rw [Clauses.aliasName, Clauses.aliasName, hlabel, htable]
  have hcatalog : left.catalog = query.catalog := by
    rw [hleft]
    rfl
  obtain ⟨result, hresult, hwritten⟩ :=
    second.exists_apply_of_read_eq behind accepted hcatalog hcontent hname
  refine ⟨result, hresult, ?_⟩
  have hown := second.eq_of_slot? behind hresult
  rw [hwritten] at hown
  conv_lhs => rw [hown, hleft]
  rfl

/-- Two calls that write different clauses come to the same query in either order, unless one of
them needs the name that the other one gives. -/
theorem exists_swapped (writes : first.slot? = some here) (done : first.apply query = .ok left)
    (behind : second.slot? = some there) (accepted : second.apply query = .ok right)
    (apart : here ≠ there) (blind : second.usesName → here ≠ .label)
    (blindBefore : first.usesName → there ≠ .label) :
    ∃ result, second.apply left = .ok result ∧ first.apply right = .ok result := by
  obtain ⟨result, hresult, hwritten⟩ :=
    exists_apply_behind writes done behind accepted apart blind
  obtain ⟨other, hother, hbefore⟩ :=
    exists_apply_behind behind accepted writes done apart.symm blindBefore
  refine ⟨result, hresult, ?_⟩
  rw [hother, hbefore, hwritten]
  simp only [modify, Slot.write_write_of_ne _ apart]

end Query

/-! ## Joins of two columns -/

/-- The join of rows that agree in two columns, for a query whose table has a name. -/
def Join.ofColumns (kind : JoinKind) (target : JoinTarget Statement) (left right : ColumnRef)
    (name : Option String) : Join Statement :=
  ⟨kind, target, .compare (left.orTable target.aliasName) .equals
    (.term (.column (match name with
      | some label => right.orTable label
      | none => right)))⟩

/-- A join on columns reads both names and adds the comparison of the two columns. -/
theorem Query.join_eq_ok {query next : Query} {kind : JoinKind} {target : JoinTarget Statement}
    {left right : String} :
    query.join kind target left right = .ok next ↔ ∃ own other,
      ColumnRef.parse left = .ok own ∧ ColumnRef.parse right = .ok other ∧
      next = query.addJoin
        (.ofColumns kind (query.resolved target) own other query.clauses.aliasName) := by
  simp only [join, bind_eq_ok, pure_eq_ok]
  constructor
  · rintro ⟨own, hown, other, hother, rfl⟩
    exact ⟨own, other, hown, hother, rfl⟩
  · rintro ⟨own, other, hown, hother, rfl⟩
    exact ⟨own, hown, other, hother, rfl⟩

theorem JoinTarget.aliasName_resolved (query : Query) (target : JoinTarget Statement) :
    (query.resolved target).aliasName = target.aliasName := by
  unfold Query.resolved
  split <;> rfl

namespace Join

/-- The table that the right column of such a join is written with. -/
def owner (target : JoinTarget Statement) (right : ColumnRef) (name : Option String) : String :=
  right.table.getD (name.getD target.aliasName)

/-- An alias changes the owner of the right column iff that is unqualified and its table was named
otherwise. -/
theorem owner_ne_iff {target : JoinTarget Statement} {right : ColumnRef} {label : String}
    {name : Option String} :
    owner target right (some label) ≠ owner target right name ↔
      right.table = none ∧ name.getD target.aliasName ≠ label := by
  obtain ⟨table, column⟩ := right
  cases table with
  | none => simp [owner, eq_comm]
  | some table => simp [owner]

/-- What joins rows to a target, whatever they have to agree in. -/
def lead (kind : JoinKind) (target : Code) : Code := .word kind.toSql :: .word " " :: target

/-- The condition of such a join up to its right column. -/
def comparing (target : JoinTarget Statement) (left : ColumnRef) : Code :=
  .word " ON " :: ((left.orTable target.aliasName).code none ++
    [Piece.word " ", .word Comparison.equals.operator, .word " "])

/-- The condition of such a join is written with both tables. -/
theorem code_ofColumns (kind : JoinKind) (target : JoinTarget Statement) (left right : ColumnRef)
    (name : Option String) :
    (Statement.foldJoin Clauses.code (ofColumns kind target left right name)).code = do
      let named ← (Statement.foldTarget Clauses.code target).code
      return lead kind named ++ if kind = .cross then [] else comparing target left ++
        ColumnRef.code ⟨some (owner target right name), right.name⟩ none := by
  have hright : (match name with
      | some label => right.orTable label
      | none => right).code (some (.name target.aliasName)) =
        ColumnRef.code ⟨some (owner target right name), right.name⟩ none := by
    obtain ⟨table, column⟩ := right
    cases table <;> cases name <;> rfl
  have hleft : (left.orTable target.aliasName).code (some (.name target.aliasName)) =
      (left.orTable target.aliasName).code none := rfl
  simp only [ofColumns, Statement.foldJoin, code, qualifier, Statement.aliasName_foldTarget,
    Statement.foldCondition, Statement.foldComparand, Condition.code?, Condition.formula,
    comparisonCode, Term.isNull, Term.code, hright, hleft, Comparison.isPattern, pure_bind]
  refine bind_congr fun named ↦ ?_
  split
  · rfl
  · rfl

end Join

/-! ## A selection with one more join -/

namespace Clauses

variable {clauses : Clauses Written} {earlier : List (Join Written)} {first second : Join Written}

/-- A selection is written alike with joins that are written alike. -/
theorem code_congr_join (verb : clauses.verb = .select) (same : first.code = second.code) :
    { clauses with joins := earlier ++ [first] }.code =
      { clauses with joins := earlier ++ [second] }.code := by
  have hjoins : (earlier ++ [first]).mapM Join.code = (earlier ++ [second]).mapM Join.code := by
    simp only [List.mapM_append, List.mapM_cons, List.mapM_nil, same]
  simp only [Clauses.code, verbCode, verb, selectCode, hjoins]
  rfl

/-- A selection is written around its last join, and another join may stand in its place. -/
theorem exists_around_join {code : Code} (verb : clauses.verb = .select)
    (h : { clauses with joins := earlier ++ [first] }.code = .ok code) :
    ∃ front own rest : Code, first.code = .ok own ∧ code = front ++ own ++ rest ∧
      ∀ (second : Join Written) (last : Code), second.code = .ok last →
        { clauses with joins := earlier ++ [second] }.code = .ok (front ++ last ++ rest) := by
  obtain ⟨declarations, change, hdeclarations, hchange, rfl⟩ := code_eq_ok h
  simp only [verbCode, verb, selectCode, bind_eq_ok, pure_eq_ok, List.mapM_append, List.mapM_cons,
    List.mapM_nil] at hchange
  obtain ⟨projection, hprojection, source, hsource, _, ⟨joins, hjoins, _, ⟨own, hown, _, rfl, rfl⟩,
    rfl⟩, filter, hfilter, groups, hgroups, having, hhaving, windows, hwindows, combinations,
    hcombinations, order, horder, lock, hlock, rfl⟩ := hchange
  refine ⟨declarations ++ (.word "SELECT " :: clauses.distinctCode ++ projection ++ source ++
      spaced joins ++ [Piece.word " "]), own,
    filter ++ groups ++ having ++ windows ++ spaced combinations ++ order ++
      numberCode " LIMIT " clauses.writtenLimit ++ numberCode " OFFSET " clauses.offset ++ lock,
    hown, ?_, fun second last hlast ↦ ?_⟩
  · simp [spaced]
    rfl
  · simp only [Clauses.code, verbCode, verb, selectCode, bind_eq_ok, pure_eq_ok, List.mapM_append,
      List.mapM_cons, List.mapM_nil]
    refine ⟨declarations, hdeclarations, _, ⟨projection, hprojection, source, hsource, _, ⟨joins,
      hjoins, _, ⟨last, hlast, _, rfl, rfl⟩, rfl⟩, filter, hfilter, groups, hgroups, having,
      hhaving, windows, hwindows, combinations, hcombinations, order, horder, lock, hlock, rfl⟩, ?_⟩
    simp [spaced]
    rfl

end Clauses

/-- Texts that differ at most in the table of one column tell the tables apart. -/
theorem ColumnRef.owner_eq_of_print_eq {front rest : Code} {first second column : String}
    (h : Code.print 0 (front ++ code ⟨some first, column⟩ none ++ rest) =
      Code.print 0 (front ++ code ⟨some second, column⟩ none ++ rest)) : first = second := by
  have hvalues (table : String) : Code.values (code ⟨some table, column⟩ none) = [] :=
    Code.values_column ⟨some table, column⟩ none
  simp only [Code.print_append, Code.values_append, hvalues, List.append_nil, Nat.zero_add] at h
  have hcolumns := String.append_right_inj _ |>.1 (String.append_left_inj _ |>.1 h)
  have hcode : code ⟨some first, column⟩ (Option.map .name none) =
      code ⟨some second, column⟩ (Option.map .name none) := code_eq_of_print_eq hcolumns
  exact Option.some.inj (code_inj.1 hcode).1

namespace Query

theorem code_addJoin (query : Query) (join : Join Statement) :
    (query.addJoin join).statement.code =
      { Statement.foldClauses Clauses.code query.clauses with
        joins := query.clauses.joins.map (Statement.foldJoin Clauses.code) ++
          [Statement.foldJoin Clauses.code join] }.code := by
  rw [statement, Statement.code, Statement.fold, addJoin, modify, Statement.foldClauses_eq,
    Statement.foldClauses_eq, Statement.foldJoins_eq, List.map_append, List.map_singleton]

variable {query : Query} {kind : JoinKind} {target : JoinTarget Statement} {left right : ColumnRef}
  {name other : Option String}

/-- A join of columns does not depend on the name of the table where it writes no other. -/
theorem compile_addJoin_congr (selects : query.clauses.verb = .select)
    (same : kind = .cross ∨ Join.owner target right name = Join.owner target right other) :
    (query.addJoin (.ofColumns kind target left right name)).compile =
      (query.addJoin (.ofColumns kind target left right other)).compile := by
  have hcode : (Statement.foldJoin Clauses.code (.ofColumns kind target left right name)).code =
      (Statement.foldJoin Clauses.code (.ofColumns kind target left right other)).code := by
    rw [Join.code_ofColumns, Join.code_ofColumns]
    rcases same with rfl | same
    · rfl
    · rw [same]
  have hverb : (Statement.foldClauses Clauses.code query.clauses).verb = .select := by
    rw [Statement.verb_fold, selects, Statement.foldVerb]
  rw [compile, compile, Statement.compile, Statement.compile, code_addJoin, code_addJoin,
    Clauses.code_congr_join hverb hcode]

/-- Where two names lead to different tables, the texts of the joins differ. -/
theorem text_ne_of_owner_ne (selects : query.clauses.verb = .select) (conditional : kind ≠ .cross)
    (apart : Join.owner target right name ≠ Join.owner target right other) {sql sql' : CompiledSql}
    (h : (query.addJoin (.ofColumns kind target left right name)).compile = .ok sql)
    (h' : (query.addJoin (.ofColumns kind target left right other)).compile = .ok sql') :
    sql.text ≠ sql'.text := by
  have hverb : (Statement.foldClauses Clauses.code query.clauses).verb = .select := by
    rw [Statement.verb_fold, selects, Statement.foldVerb]
  rw [compile, Statement.compile, code_addJoin] at h h'
  obtain ⟨code, hcode, rfl⟩ := map_eq_ok.1 h
  obtain ⟨code', hcode', rfl⟩ := map_eq_ok.1 h'
  obtain ⟨front, own, rest, hown, rfl, hothers⟩ := Clauses.exists_around_join hverb hcode
  rw [Join.code_ofColumns, if_neg conditional] at hown
  obtain ⟨named, hnamed, hown⟩ := bind_eq_ok.1 hown
  have hlast := hothers (Statement.foldJoin Clauses.code (.ofColumns kind target left right other))
    _ (by rw [Join.code_ofColumns, if_neg conditional, hnamed]; rfl)
  rw [hlast] at hcode'
  cases hown
  cases hcode'
  intro htexts
  exact apart (@ColumnRef.owner_eq_of_print_eq
    (front ++ (Join.lead kind named ++ Join.comparing target left)) rest _ _ _
    (by simpa only [Code.compile, List.append_assoc] using htexts))

/-! ## Names that come too late -/

/-- A join refers to a column of the table of a query by another name than the table is given. -/
def Misses (query : Query) (label : String) (kind : JoinKind) (target : JoinTarget Statement)
    (right : String) : Prop :=
  kind ≠ .cross ∧ ∃ column, ColumnRef.parse right = .ok ⟨none, column⟩ ∧
    query.clauses.aliasName.getD target.aliasName ≠ label

/-- One call gives the table a name, and the other joins it by a column under another name. -/
def Clashes (query : Query) : Call → Call → Prop
  | .as label, .join kind target _ right | .join kind target _ right, .as label =>
    query.Misses label kind target right
  | _, _ => False

/-- A join behind a new name of the table is written like one in front of it, unless it misses the
name. -/
theorem exists_join_as {joined : Query} {left right : String} (label : String)
    (selects : query.clauses.verb = .select)
    (done : query.join kind target left right = .ok joined) :
    ∃ renamed, (query.as label).join kind target left right = .ok renamed ∧
      (¬query.Misses label kind target right →
        renamed.compile = (joined.as label).compile) ∧
      (query.Misses label kind target right → ∀ sql sql', renamed.compile = .ok sql →
        (joined.as label).compile = .ok sql' → sql.text ≠ sql'.text) := by
  obtain ⟨own, other, hown, hother, rfl⟩ := join_eq_ok.1 done
  have hselects : (query.as label).clauses.verb = .select := selects
  have hmisses : query.Misses label kind target right ↔ kind ≠ .cross ∧
      Join.owner (query.resolved target) other (some label) ≠
        Join.owner (query.resolved target) other query.clauses.aliasName := by
    rw [Join.owner_ne_iff, JoinTarget.aliasName_resolved, Misses, hother]
    refine and_congr_right fun _ ↦ ⟨?_, ?_⟩
    · rintro ⟨column, hcolumn, hname⟩
      cases hcolumn
      exact ⟨rfl, hname⟩
    · rintro ⟨htable, hname⟩
      obtain ⟨table, column⟩ := other
      cases htable
      exact ⟨column, rfl, hname⟩
  have hbefore : (query.addJoin (.ofColumns kind (query.resolved target) own other
      query.clauses.aliasName)).as label = (query.as label).addJoin
        (.ofColumns kind (query.resolved target) own other query.clauses.aliasName) := rfl
  refine ⟨_, join_eq_ok.2 ⟨own, other, hown, hother, rfl⟩, fun hmeets ↦ ?_, fun h ↦ ?_⟩
  · rw [hmisses, not_and_or, not_not, not_not] at hmeets
    rw [hbefore]
    exact compile_addJoin_congr hselects hmeets
  · obtain ⟨hconditional, howner⟩ := hmisses.1 h
    rw [hbefore]
    exact fun sql sql' ↦ text_ne_of_owner_ne hselects hconditional howner

/-- Two calls on a selection that write different clauses and are both accepted may be made in
either order, and both queries have the same text and values, or fail to compile alike, unless one
call gives the table a name and the other joins it by a column under another name. In that case the
texts differ. -/
theorem compile_swapped (selects : query.clauses.verb = .select) {left right : Query}
    {first second : Call} {here there : Slot} (writes : first.slot? = some here)
    (behind : second.slot? = some there) (apart : here ≠ there)
    (done : first.apply query = .ok left) (accepted : second.apply query = .ok right) :
    ∃ after before, second.apply left = .ok after ∧ first.apply right = .ok before ∧
      (¬query.Clashes first second → after.compile = before.compile) ∧
      (query.Clashes first second → ∀ sql other, after.compile = .ok sql →
        before.compile = .ok other → sql.text ≠ other.text) := by
  -- Only a join of columns uses the name of the table. Where one of the calls is such a join and
  -- the other gives the name, they are told apart by the name that the join sees.
  by_cases hblind : second.usesName → here ≠ .label
  · by_cases hblindBefore : first.usesName → there ≠ .label
    · obtain ⟨result, hafter, hbefore⟩ :=
        exists_swapped writes done behind accepted apart hblind hblindBefore
      refine ⟨result, result, hafter, hbefore, fun _ ↦ rfl, fun hclash ↦ ?_⟩
      unfold Clashes at hclash
      split at hclash
      · cases writes
        exact absurd rfl (hblind rfl)
      · cases behind
        exact absurd rfl (hblindBefore rfl)
      · exact hclash.elim
    · simp only [Classical.not_imp, not_not] at hblindBefore
      obtain ⟨huses, rfl⟩ := hblindBefore
      cases first <;> cases huses
      cases second <;> cases behind
      rename_i kind target own other label
      cases accepted
      obtain ⟨renamed, hrenamed, hsame, hdiffers⟩ := exists_join_as label selects done
      exact ⟨left.as label, renamed, rfl, hrenamed, fun h ↦ (hsame h).symm,
        fun h sql sql' hsql hsql' ↦ (hdiffers h sql' sql hsql' hsql).symm⟩
  · simp only [Classical.not_imp, not_not] at hblind
    obtain ⟨huses, rfl⟩ := hblind
    cases second <;> cases huses
    cases first <;> cases writes
    rename_i kind target own other label
    cases done
    obtain ⟨renamed, hrenamed, hsame, hdiffers⟩ := exists_join_as label selects accepted
    exact ⟨renamed, right.as label, hrenamed, rfl, hsame, hdiffers⟩

/-- The join of users with their posts, under some name of the table of users. -/
def joinPosts (name : String) : Join Statement :=
  .ofColumns .inner (.table "post" none none) ⟨none, "authorId"⟩ ⟨none, "id"⟩ (some name)

theorem join_posts (query : Query) {name : String} (named : query.clauses.aliasName = some name)
    (alone : query.catalog = none) :
    query.join .inner (.table "post" none none) "authorId" "id" =
      .ok (query.addJoin (joinPosts name)) := by
  have hleft : ColumnRef.parse "authorId" = .ok ⟨none, "authorId"⟩ := by decide +kernel
  have hright : ColumnRef.parse "id" = .ok ⟨none, "id"⟩ := by decide +kernel
  refine join_eq_ok.2 ⟨_, _, hleft, hright, ?_⟩
  rw [named, joinPosts, resolved, alone]
  rfl

/-- A join is written alike in front of a limit and behind it. -/
theorem compile_swapped_posts :
    ∃ after before,
      (Call.limit 3).apply ((Query.ofTable (.named "user")).addJoin (joinPosts "user")) =
        .ok after ∧
      (Call.join .inner (.table "post" none none) "authorId" "id").apply
        ((Query.ofTable (.named "user")).limit 3) = .ok before ∧
      after.compile = before.compile := by
  have hselects : (Query.ofTable (.named "user")).clauses.verb = .select := rfl
  have hjoins : (Call.join .inner (.table "post" none none) "authorId" "id").slot? =
      some .joins := rfl
  have hlimits : (Call.limit 3).slot? = some .limit := rfl
  obtain ⟨after, before, hafter, hbefore, hsame, -⟩ := compile_swapped hselects hjoins hlimits
    (by decide) (join_posts (.ofTable (.named "user")) rfl rfl) rfl
  exact ⟨after, before, hafter, hbefore, hsame id⟩

/-- A name that is given to the table of users behind a join is not the one that the join uses. -/
theorem compile_join_as :
    ∃ joined named renamed sql sql',
      (Call.join .inner (.table "post" none none) "authorId" "id").apply
        (.ofTable (.named "user")) = .ok joined ∧
      (Call.as "u").apply joined = .ok named ∧
      (Call.join .inner (.table "post" none none) "authorId" "id").apply
        ((Query.ofTable (.named "user")).as "u") = .ok renamed ∧
      named.compile = .ok sql ∧ renamed.compile = .ok sql' ∧
      sql.text = "SELECT \"u\".* FROM \"user\" AS \"u\" " ++
        "JOIN \"post\" ON \"post\".\"authorId\" = \"user\".\"id\"" ∧
      sql'.text = "SELECT \"u\".* FROM \"user\" AS \"u\" " ++
        "JOIN \"post\" ON \"post\".\"authorId\" = \"u\".\"id\"" := by
  refine ⟨_, _, _, _, _, join_posts _ rfl rfl, rfl, join_posts _ rfl rfl, rfl, rfl, ?_, ?_⟩
  · decide +kernel
  · decide +kernel

end Query

end SqlComposer
