import SqlComposer.Ident
import SqlComposer.Proofs.Code.PrintedText
import SqlComposer.Proofs.Script.ExceptResults

/-!
# The identifiers that texts denote

The grammar of identifiers is stated here on its own: which texts are written for a part, and which
for parts with dots between them. Reading decides this grammar and gives the identifier that the
text denotes, and an identifier that was read is read again from its SQL.

A part ends where a dot or the end of the text follows it, so what is read of a part depends on the
text behind it only through its first character.
-/

namespace SqlComposer

/-! ## The grammar -/

/-- The characters of `[A-Za-z_]`. -/
def OpensBareName (c : Char) : Prop :=
  ('A' ≤ c ∧ c ≤ 'Z') ∨ ('a' ≤ c ∧ c ≤ 'z') ∨ c = '_'

/-- The characters of `[A-Za-z0-9_$]`. -/
def StaysInBareName (c : Char) : Prop :=
  OpensBareName c ∨ ('0' ≤ c ∧ c ≤ '9') ∨ c = '$'

/-- The text `written` between quotes stands for `name`: two quotes stand for one. -/
inductive Ident.StandsFor : List Char → List Char → Prop
  | nil : StandsFor [] []
  | quote {written name : List Char} (rest : StandsFor written name) :
    StandsFor ('"' :: '"' :: written) ('"' :: name)
  | plain {c : Char} {written name : List Char} (unquoted : c ≠ '"')
    (rest : StandsFor written name) : StandsFor (c :: written) (c :: name)

/-- The text `written` is one part of an identifier: a bare name, a name in quotes, or the star. -/
inductive IdentPart.Denoted : List Char → IdentPart → Prop
  | bare {c : Char} {rest : List Char} (opens : OpensBareName c)
    (stays : ∀ d ∈ rest, StaysInBareName d) :
    Denoted (c :: rest) (.name (String.ofList (c :: rest)))
  | quoted {written name : List Char} (stands : Ident.StandsFor written name)
    (nonempty : name ≠ []) : Denoted ('"' :: (written ++ ['"'])) (.name (String.ofList name))
  | star : Denoted ['*'] .star

/-- The parts of an identifier are written in a text one by one, with single dots between them; the
star is the last part at most, and no character is NUL. -/
structure Ident.DenotedIn (text : String) (ident : Ident) (written : List (List Char)) : Prop where
  parts : List.Forall₂ IdentPart.Denoted written ident.parts
  nonempty : ident.parts ≠ []
  dotted : text.toList = ['.'].intercalate written
  star_last : .star ∉ ident.parts.dropLast
  no_nul : '\x00' ∉ text.toList

/-- The text denotes the identifier. -/
def Ident.Denotes (text : String) (ident : Ident) : Prop :=
  ∃ written, ident.DenotedIn text written

namespace Ident

/-! ## Bare names -/

theorem startsBareName_iff (c : Char) : startsBareName c = true ↔ OpensBareName c := by
  have halpha : c.isAlpha = (c.isUpper || c.isLower) := rfl
  have hupper : c.isUpper = decide ('A'.val ≤ c.val ∧ c.val ≤ 'Z'.val) := rfl
  have hlower : c.isLower = (decide ('a'.val ≤ c.val) && decide (c.val ≤ 'z'.val)) := rfl
  simp only [startsBareName, OpensBareName, halpha, hupper, hlower, Char.le_def, Bool.or_eq_true,
    Bool.and_eq_true, beq_iff_eq, decide_eq_true_eq]
  tauto

theorem continuesBareName_iff (c : Char) : continuesBareName c = true ↔ StaysInBareName c := by
  simp only [continuesBareName, StaysInBareName, ← startsBareName_iff, startsBareName,
    Char.isAlphanum, Char.isDigit, Char.le_def, Bool.or_eq_true, Bool.and_eq_true, beq_iff_eq,
    decide_eq_true_eq, ge_iff_le]
  tauto

theorem not_staysInBareName_dot : ¬StaysInBareName '.' := by
  rw [← continuesBareName_iff]
  decide

/-- The characters read of a bare name are all that stand in front of a dot or the end. -/
theorem readBareRest_sound {text : String} {cs name rest : List Char}
    (h : readBareRest text cs = .ok (name, rest)) :
    (∀ c ∈ name, StaysInBareName c) ∧ cs = name ++ rest := by
  induction cs generalizing name with
  | nil =>
    simp only [readBareRest, Except.ok.injEq, Prod.mk.injEq] at h
    simp [← h.1, ← h.2]
  | cons c cs ih =>
    unfold readBareRest at h
    split at h
    · simp only [Except.ok.injEq, Prod.mk.injEq] at h
      simp [← h.1, ← h.2]
    · split at h
      · rename_i hc
        obtain ⟨⟨others, behind⟩, hread, heq⟩ := map_eq_ok.1 h
        obtain ⟨rfl, rfl⟩ := Prod.mk.inj heq
        obtain ⟨hothers, rfl⟩ := ih hread
        exact ⟨List.forall_mem_cons.2 ⟨(continuesBareName_iff c).1 hc, hothers⟩, rfl⟩
      · cases h

/-- A bare name is read up to the dot behind it. -/
theorem readBareRest_complete (text : String) {name rest : List Char}
    (stays : ∀ c ∈ name, StaysInBareName c) (ends : ∀ c ∈ rest.head?, c = '.') :
    readBareRest text (name ++ rest) = .ok (name, rest) := by
  induction name with
  | nil =>
    cases rest with
    | nil => rfl
    | cons c rest =>
      have hc : c = '.' := ends c rfl
      rw [List.nil_append, readBareRest, if_pos hc]
  | cons c name ih =>
    rw [List.forall_mem_cons] at stays
    have hdot : c ≠ '.' := fun hc ↦ not_staysInBareName_dot (hc ▸ stays.1)
    rw [List.cons_append, readBareRest, if_neg hdot, if_pos ((continuesBareName_iff c).2 stays.1),
      ih stays.2]
    rfl

/-! ## Quoted names -/

theorem readQuoted_sound {cs name rest : List Char} (h : readQuoted cs = some (name, rest)) :
    ∃ written, StandsFor written name ∧ cs = written ++ '"' :: rest := by
  fun_induction readQuoted cs generalizing name rest with
  | case1 => cases h
  | case2 cs ih =>
    obtain ⟨⟨others, behind⟩, hread, heq⟩ := Option.map_eq_some_iff.1 h
    obtain ⟨rfl, rfl⟩ := Prod.mk.inj heq
    obtain ⟨written, hwritten, rfl⟩ := ih hread
    exact ⟨'"' :: '"' :: written, .quote hwritten, rfl⟩
  | case3 cs _ =>
    obtain ⟨rfl, rfl⟩ := Prod.mk.inj (Option.some.inj h)
    exact ⟨[], .nil, rfl⟩
  | case4 c cs _ hquote ih =>
    obtain ⟨⟨others, behind⟩, hread, heq⟩ := Option.map_eq_some_iff.1 h
    obtain ⟨rfl, rfl⟩ := Prod.mk.inj heq
    obtain ⟨written, hwritten, rfl⟩ := ih hread
    exact ⟨c :: written, .plain hquote hwritten, rfl⟩

theorem readQuoted_complete {written name rest : List Char} (stands : StandsFor written name)
    (closed : '"' ∉ rest.head?) : readQuoted (written ++ '"' :: rest) = some (name, rest) := by
  induction stands with
  | nil =>
    rw [List.nil_append, readQuoted]
    intro behind hrest
    simp [hrest] at closed
  | quote _ ih => simp [readQuoted, ih]
  | plain hc _ ih => simp [readQuoted, hc, ih]

/-- A name that is printed between quotes is denoted by what is printed. -/
theorem standsFor_doubled (name : List Char) : StandsFor (doubled '"' name) name := by
  induction name with
  | nil => exact .nil
  | cons c name ih =>
    unfold doubled
    split
    · rename_i hc
      subst hc
      exact .quote ih
    · rename_i hc
      exact .plain hc ih

/-! ## Parts -/

theorem readPart_sound {text : String} {cs rest : List Char} {part : IdentPart}
    (h : readPart text cs = .ok (part, rest)) :
    ∃ written, part.Denoted written ∧ cs = written ++ rest := by
  unfold readPart at h
  split at h
  · obtain ⟨rfl, rfl⟩ := Prod.mk.inj (Except.ok.inj h)
    exact ⟨['*'], .star, rfl⟩
  · split at h
    · cases h
    · cases h
    · rename_i name behind hempty hread
      obtain ⟨rfl, rfl⟩ := Prod.mk.inj (Except.ok.inj h)
      obtain ⟨written, hwritten, rfl⟩ := readQuoted_sound hread
      exact ⟨_, .quoted hwritten hempty, by simp⟩
  · cases h
  · split at h
    · cases h
    · split at h
      · rename_i hc
        obtain ⟨⟨name, behind⟩, hread, heq⟩ := map_eq_ok.1 h
        obtain ⟨rfl, rfl⟩ := Prod.mk.inj heq
        obtain ⟨hname, rfl⟩ := readBareRest_sound hread
        exact ⟨_, .bare ((startsBareName_iff _).1 hc) hname, rfl⟩
      · cases h

theorem ne_nil_of_denoted {written : List Char} {part : IdentPart}
    (denoted : part.Denoted written) : written ≠ [] := by
  cases denoted <;> exact List.cons_ne_nil _ _

/-- A text that denotes a part is read as that part, up to the dot behind it. -/
theorem readPart_complete (text : String) {written rest : List Char} {part : IdentPart}
    (denoted : part.Denoted written) (ends : ∀ c ∈ rest.head?, c = '.') :
    readPart text (written ++ rest) = .ok (part, rest) := by
  cases denoted with
  | @bare c name opens stays =>
    have hopens := (startsBareName_iff c).2 opens
    have hstar : c ≠ '*' := fun hc ↦ absurd (hc ▸ hopens) (by decide)
    have hquote : c ≠ '"' := fun hc ↦ absurd (hc ▸ hopens) (by decide)
    have hdot : c ≠ '.' := fun hc ↦ absurd (hc ▸ hopens) (by decide)
    rw [List.cons_append, readPart, if_neg hdot, if_pos hopens,
      readBareRest_complete text stays ends]
    · rfl
    · exact hstar
    · exact hquote
  | quoted stands nonempty =>
    have hclosed : '"' ∉ rest.head? := fun hquote ↦ absurd (ends '"' hquote) (by decide)
    rw [List.cons_append, List.append_assoc, List.singleton_append, readPart,
      readQuoted_complete stands hclosed]
    cases stands with
    | nil => exact absurd rfl nonempty
    | quote _ => rfl
    | plain _ _ => rfl
  | star => rfl

/-! ## Parts behind each other -/

/-- Parts as they stand behind a first one, each led by a dot. -/
def led (written : List (List Char)) : List Char := written.flatMap ('.' :: ·)

theorem led_cons (first : List Char) (rest : List (List Char)) :
    led (first :: rest) = '.' :: (first ++ led rest) := rfl

theorem intercalate_dot (first : List Char) (rest : List (List Char)) :
    ['.'].intercalate (first :: rest) = first ++ led rest := by
  induction rest generalizing first with
  | nil => simp [led]
  | cons second rest ih =>
    calc
      ['.'].intercalate (first :: second :: rest) =
          first ++ (['.'] ++ ['.'].intercalate (second :: rest)) := by
        rw [List.intercalate_cons_cons]
        simp
      _ = first ++ '.' :: (second ++ led rest) := by rw [ih, List.singleton_append]
      _ = first ++ led (second :: rest) := by rw [led_cons]

theorem mem_dotted {written : List (List Char)} {part : List Char} (hpart : part ∈ written)
    {c : Char} (hc : c ∈ part) : c ∈ ['.'].intercalate written := by
  cases written with
  | nil => cases hpart
  | cons first rest =>
    rw [intercalate_dot, List.mem_append]
    rcases List.mem_cons.1 hpart with rfl | hpart
    · exact .inl hc
    · exact .inr (List.mem_flatMap.2 ⟨part, hpart, List.mem_cons_of_mem '.' hc⟩)

theorem ends_led (written : List (List Char)) : ∀ c ∈ (led written).head?, c = '.' := by
  cases written with
  | nil => simp [led]
  | cons first rest => simp [led_cons]

/-- The parts read behind a part are denoted by the texts between the dots. -/
theorem readMore_sound {text : String} {previous : IdentPart} {cs : List Char}
    {parts : List IdentPart} (h : readMore text previous cs = .ok parts) :
    ∃ written, List.Forall₂ IdentPart.Denoted written parts ∧ cs = led written ∧
      .star ∉ (previous :: parts).dropLast := by
  fun_induction readMore text previous cs generalizing parts with
  | case1 =>
    obtain rfl := Except.ok.inj h
    exact ⟨[], .nil, rfl, by simp⟩
  | case2 => cases h
  | case3 => cases h
  | case4 => cases h
  | case5 => cases h
  | case6 previous c cs hdot _ hstar part rest hread _ ih =>
    obtain ⟨others, hmore, rfl⟩ := map_eq_ok.1 h
    obtain ⟨first, hfirst, rfl⟩ := readPart_sound hread
    obtain ⟨written, hwritten, rfl, hlast⟩ := ih hmore
    obtain rfl := not_not.1 hdot
    refine ⟨first :: written, .cons hfirst hwritten, (led_cons first written).symm, ?_⟩
    rw [List.dropLast_cons_cons, List.mem_cons, not_or]
    exact ⟨Ne.symm hstar, hlast⟩

/-- Texts that denote parts are read as these parts, if only the last is a star. -/
theorem readMore_complete (text : String) (previous : IdentPart) {written : List (List Char)}
    {parts : List IdentPart} (denoted : List.Forall₂ IdentPart.Denoted written parts)
    (last : .star ∉ (previous :: parts).dropLast) :
    readMore text previous (led written) = .ok parts := by
  induction denoted generalizing previous with
  | nil => rw [led, List.flatMap_nil, readMore]
  | @cons first part written parts hfirst _ ih =>
    rw [List.dropLast_cons_cons, List.mem_cons, not_or] at last
    have hread := readPart_complete text hfirst (ends_led written)
    have hnonempty : (first ++ led written).isEmpty = false :=
      List.isEmpty_eq_false_iff.2 (List.append_ne_nil_of_left_ne_nil (ne_nil_of_denoted hfirst) _)
    rw [led_cons, readMore, if_neg (not_not.2 rfl), hnonempty, if_neg Bool.false_ne_true,
      if_neg (Ne.symm last.1)]
    split
    · rename_i error herror
      cases hread.symm.trans herror
    · rename_i part' rest' hread'
      obtain ⟨rfl, rfl⟩ := Prod.mk.inj (Except.ok.inj (hread.symm.trans hread'))
      rw [ih part last.2]
      rfl

/-! ## Identifiers -/

/-- Reading a text gives an identifier exactly if the text denotes it. -/
theorem parse_iff (text : String) (ident : Ident) :
    parse text = .ok ident ↔ Denotes text ident := by
  constructor
  · intro h
    unfold parse at h
    split at h
    · cases h
    · split at h
      · cases h
      · rename_i hnul
        obtain ⟨⟨part, rest⟩, hread, h⟩ := bind_eq_ok.1 h
        obtain ⟨parts, hmore, h⟩ := bind_eq_ok.1 h
        obtain rfl := pure_eq_ok.1 h
        obtain ⟨first, hfirst, htext⟩ := readPart_sound hread
        obtain ⟨written, hwritten, rfl, hlast⟩ := readMore_sound hmore
        exact ⟨first :: written, .cons hfirst hwritten, List.cons_ne_nil _ _,
          htext.trans (intercalate_dot first written).symm, hlast, by simpa using hnul⟩
  · rintro ⟨written, hparts, hnonempty, hdotted, hlast, hnul⟩
    obtain ⟨parts⟩ := ident
    cases hparts with
    | nil => exact absurd rfl hnonempty
    | @cons first part written parts hfirst hwritten =>
      rw [intercalate_dot] at hdotted
      have hread := readPart_complete text hfirst (ends_led written)
      have hnonempty : text.isEmpty = false := by
        rw [String.isEmpty_eq_false_iff, ne_eq, ← String.toList_inj, hdotted]
        exact List.append_ne_nil_of_left_ne_nil (ne_nil_of_denoted hfirst) _
      rw [parse, hnonempty, if_neg Bool.false_ne_true, if_neg (by simpa using hnul), hdotted, hread]
      exact bind_eq_ok.2 ⟨(part, led written), rfl,
        bind_eq_ok.2 ⟨parts, readMore_complete text part hwritten hlast, rfl⟩⟩

/-! ## Printing -/

theorem mem_of_standsFor {written name : List Char} (stands : StandsFor written name) {c : Char}
    (hc : c ∈ name) : c ∈ written := by
  induction stands with
  | nil => exact hc
  | quote _ ih => exact List.mem_cons_of_mem _ (List.mem_cons.2 ((List.mem_cons.1 hc).imp_right ih))
  | plain _ _ ih => exact List.mem_cons.2 ((List.mem_cons.1 hc).imp_right ih)

/-- What is printed for a part that was read is a text for this part. -/
theorem denoted_toSql {written : List Char} {part : IdentPart} (denoted : part.Denoted written) :
    part.Denoted part.toSql.toList := by
  have hname {name : List Char} (nonempty : name ≠ []) :
      (IdentPart.name (String.ofList name)).Denoted (quoteName (String.ofList name)).toList := by
    rw [quoteName, enclosed, String.toList_ofList, String.toList_ofList]
    exact .quoted (standsFor_doubled name) nonempty
  cases denoted with
  | bare _ _ => exact hname (List.cons_ne_nil _ _)
  | quoted _ nonempty => exact hname nonempty
  | star => exact .star

/-- No NUL comes into what is printed for a part. -/
theorem nul_not_mem_toSql {written : List Char} {part : IdentPart} (denoted : part.Denoted written)
    (plain : '\x00' ∉ written) : '\x00' ∉ part.toSql.toList := by
  cases denoted with
  | bare _ _ => exact not_mem_enclosed (by decide) (by rwa [String.toList_ofList])
  | quoted stands _ =>
    refine not_mem_enclosed (by decide) fun hnul ↦ plain ?_
    rw [String.toList_ofList] at hnul
    exact List.mem_cons_of_mem _ (List.mem_append_left _ (mem_of_standsFor stands hnul))
  | star => decide

/-- What is printed for an identifier that some text denotes denotes it as well. -/
theorem Denotes.toSql {text : String} {ident : Ident} (denotes : Denotes text ident) :
    Denotes ident.toSql ident := by
  obtain ⟨written, hparts, hnonempty, hdotted, hlast, hnul⟩ := denotes
  rw [hdotted] at hnul
  have hpart (part : IdentPart) (hpart : part ∈ ident.parts) :
      part.Denoted part.toSql.toList ∧ '\x00' ∉ part.toSql.toList := by
    obtain ⟨piece, hpiece, hdenoted⟩ := exists_of_forall₂ hparts hpart
    exact ⟨denoted_toSql hdenoted,
      nul_not_mem_toSql hdenoted fun hmem ↦ hnul (mem_dotted hpiece hmem)⟩
  refine ⟨ident.parts.map fun part ↦ part.toSql.toList, ?_, hnonempty, ?_, hlast, ?_⟩
  · apply List.forall₂_map_left_iff.2
    exact List.forall₂_same.2 fun part hmem ↦ (hpart part hmem).1
  · rw [Ident.toSql, String.toList_intercalate, List.map_map]
    rfl
  · have hplain : ∀ c ∈ ident.toSql.toList, c ≠ '\x00' := by
      apply Code.forall_mem_intercalate
      · simp
      · simp only [List.forall_mem_map]
        intro part hmem c hc hnul
        exact (hpart part hmem).2 (hnul ▸ hc)
    exact fun hmem ↦ hplain _ hmem rfl

/-- Reading identifiers is exact and undone by printing. A text is read exactly if it denotes an
identifier, what is read is the identifier that it denotes, and the SQL of an identifier that was
read is read as this identifier again. -/
theorem parse_exact (text : String) :
    (∀ ident, parse text = .ok ident ↔ Denotes text ident) ∧
      ∀ ident, parse text = .ok ident → parse ident.toSql = .ok ident := by
  refine ⟨parse_iff text, fun ident hread ↦ ?_⟩
  apply (parse_iff _ _).2
  exact ((parse_iff _ _).1 hread).toSql

/-- A bare name, a name with a quote in it and the star, behind each other. -/
theorem denotes_mixed : Denotes "user.\"a\"\"b\".*" ⟨[.name "user", .name "a\"b", .star]⟩ := by
  have hrest : "ser".toList.all continuesBareName := rfl
  have huser : (IdentPart.name "user").Denoted "user".toList :=
    .bare ((startsBareName_iff 'u').1 rfl) fun c hc ↦
      (continuesBareName_iff c).1 (List.all_eq_true.1 hrest c hc)
  have hquoted : (IdentPart.name "a\"b").Denoted "\"a\"\"b\"".toList :=
    .quoted (.plain (by decide) (.quote (.plain (by decide) .nil))) (List.cons_ne_nil _ _)
  exact ⟨_, .cons huser (.cons hquoted (.cons .star .nil)), List.cons_ne_nil _ _, by decide,
    by decide, by decide⟩

theorem parse_exact_mixed :
    parse "user.\"a\"\"b\".*" = .ok ⟨[.name "user", .name "a\"b", .star]⟩ ∧
      parse (toSql ⟨[.name "user", .name "a\"b", .star]⟩) =
        .ok ⟨[.name "user", .name "a\"b", .star]⟩ := by
  have hread := ((parse_exact _).1 _).2 denotes_mixed
  exact ⟨hread, (parse_exact _).2 _ hread⟩

end Ident
end SqlComposer
