import Mathlib.Data.List.Induction
import Mathlib.Data.List.TakeWhile
import Mathlib.Tactic.NormNum
import Mathlib.Tactic.Ring
import SqlComposer.Proofs.Wire.IntegerBytes
import SqlComposer.Wire.Bytes

/-!
# Decimals in groups

A decimal is read back from its groups of four digits. The groups behind the point are added up one
after another; what has been added is always the number up to that group, with no more places than
the decimal has, and so it fits wherever the decimal does. Only a zero loses its sign and its
places.
-/

namespace SqlComposer

theorem tenTo_add (m n : Nat) : tenTo (m + n) = tenTo m * tenTo n := Nat.pow_add 10 m n

namespace NumericGroups

/-! ## The number of groups -/

/-- The number that groups stand for. -/
def groupsValue (groups : List Nat) : Nat := groups.foldl (fun n group => n * 10000 + group) 0

@[simp]
theorem groupsValue_nil : groupsValue [] = 0 := rfl

theorem groupsValue_append_singleton (groups : List Nat) (group : Nat) :
    groupsValue (groups ++ [group]) = groupsValue groups * 10000 + group := by
  simp [groupsValue, List.foldl_append]

theorem groupsValue_append (first second : List Nat) :
    groupsValue (first ++ second) =
      groupsValue first * tenTo (4 * second.length) + groupsValue second := by
  induction second using List.reverseRecOn with
  | nil => simp [tenTo]
  | append_singleton second group ih =>
    rw [← List.append_assoc, groupsValue_append_singleton, groupsValue_append_singleton, ih,
      List.length_append, List.length_singleton, Nat.mul_add, tenTo_add]
    change _ = groupsValue first * (tenTo (4 * second.length) * 10000) + _
    ring

theorem groupsValue_cons (group : Nat) (groups : List Nat) :
    groupsValue (group :: groups) = group * tenTo (4 * groups.length) + groupsValue groups := by
  rw [← List.singleton_append, groupsValue_append]
  simp [groupsValue]

/-- The groups of a number are the number up to what they cannot hold. -/
theorem groupsValue_lastGroups (count n : Nat) :
    groupsValue (lastGroups count n) = n % tenTo (4 * count) := by
  induction count generalizing n with
  | zero => simp [lastGroups, tenTo, Nat.mod_one]
  | succ count ih =>
    rw [lastGroups, groupsValue_append_singleton, ih, Nat.mul_add, Nat.add_comm (4 * count),
      tenTo_add, show tenTo (4 * 1) = 10000 from rfl, Nat.mod_mul]
    omega

theorem groupsValue_dropWhile_zero (groups : List Nat) :
    groupsValue (groups.dropWhile (· == 0)) = groupsValue groups := by
  induction groups with
  | nil => rfl
  | cons group groups ih =>
    rw [List.dropWhile_cons]
    split
    · rename_i hzero
      rw [ih, groupsValue_cons, beq_iff_eq.1 hzero, Nat.zero_mul, Nat.zero_add]
    · rfl

theorem groupsValue_groupsOf {n : Nat} (h : n < tenTo 32) : groupsValue (groupsOf n) = n := by
  unfold groupsOf
  rw [groupsValue_dropWhile_zero, groupsValue_lastGroups]
  exact Nat.mod_eq_of_lt h

theorem groupsValue_replicate_zero (count : Nat) : groupsValue (List.replicate count 0) = 0 := by
  induction count with
  | zero => rfl
  | succ count ih => rw [List.replicate_succ, groupsValue_cons, ih, Nat.zero_mul]

theorem length_lastGroups (count n : Nat) : (lastGroups count n).length = count := by
  induction count generalizing n with
  | zero => rfl
  | succ count ih => rw [lastGroups, List.length_append, ih, List.length_singleton]

theorem length_groupsOf_le (n : Nat) : (groupsOf n).length ≤ maxGroups :=
  (List.dropWhile_sublist _).length_le.trans_eq (length_lastGroups _ _)

theorem lt_of_mem_lastGroups {count n group : Nat} (h : group ∈ lastGroups count n) :
    group < 10000 := by
  induction count generalizing n with
  | zero => simp [lastGroups] at h
  | succ count ih =>
    obtain h | h := List.mem_append.1 h
    · exact ih h
    · rw [List.mem_singleton.1 h]
      exact Nat.mod_lt _ (by decide)

theorem lt_of_mem_groupsOf {n group : Nat} (h : group ∈ groupsOf n) : group < 10000 :=
  lt_of_mem_lastGroups ((List.dropWhile_sublist _).mem h)

/-! ## Zeros at the end -/

/-- The zeros that are left out at the end count for nothing. -/
theorem exists_dropFinalZeros (groups : List Nat) :
    ∃ count, groups = dropFinalZeros groups ++ List.replicate count 0 := by
  have hzeros : ∀ group ∈ groups.reverse.takeWhile (· == 0), group = 0 :=
    fun group h ↦ beq_iff_eq.1 (List.mem_takeWhile_imp (p := (· == 0)) h)
  refine ⟨(groups.reverse.takeWhile (· == 0)).length, ?_⟩
  calc
    groups = (groups.reverse.takeWhile (· == 0) ++ groups.reverse.dropWhile (· == 0)).reverse := by
      rw [List.takeWhile_append_dropWhile, List.reverse_reverse]
    _ = dropFinalZeros groups ++ (groups.reverse.takeWhile (· == 0)).reverse :=
      List.reverse_append
    _ = _ := by
      rw [List.eq_replicate_of_mem hzeros, List.reverse_replicate, List.length_replicate]

/-! ## Zeros of a number -/

/-- A number without the zeros at its end is the same number. -/
theorem dropZeros_value (bound mantissa : Nat) {scale : Nat} (h : scale ≤ bound) :
    (Decimal.dropZeros bound (mantissa, scale)).2 ≤ scale ∧
      (Decimal.dropZeros bound (mantissa, scale)).1 * tenTo scale =
        mantissa * tenTo (Decimal.dropZeros bound (mantissa, scale)).2 := by
  induction bound generalizing mantissa scale with
  | zero =>
    rw [Nat.le_zero.1 h]
    exact ⟨Nat.le_refl _, rfl⟩
  | succ bound ih =>
    rw [Decimal.dropZeros]
    split
    · exact ⟨Nat.le_refl _, rfl⟩
    · rename_i hdrop
      obtain ⟨scale, rfl⟩ : ∃ rest, scale = rest + 1 := ⟨scale - 1, by omega⟩
      obtain ⟨hscale, hvalue⟩ := ih (mantissa / 10) (show scale ≤ bound by omega)
      rw [Nat.add_sub_cancel]
      refine ⟨by omega, ?_⟩
      rw [tenTo_succ, ← Nat.mul_assoc, hvalue, Nat.mul_right_comm]
      congr 1
      omega

/-- The zeros at the end of a number are all dropped. -/
theorem dropZeros_scale {bound mantissa scale zeros : Nat} (h : scale ≤ bound)
    (hzeros : zeros ≤ scale) (hdvd : tenTo zeros ∣ mantissa) :
    (Decimal.dropZeros bound (mantissa, scale)).2 + zeros ≤ scale := by
  induction bound generalizing mantissa scale zeros with
  | zero =>
    obtain rfl := Nat.le_zero.1 h
    rw [Decimal.dropZeros, Nat.zero_add]
    exact hzeros
  | succ bound ih =>
    rw [Decimal.dropZeros]
    cases zeros with
    | zero =>
      split
      · exact Nat.le_refl _
      · exact (ih (by omega) (Nat.zero_le _) (one_dvd _)).trans (Nat.sub_le _ _)
    | succ zeros =>
      obtain ⟨rest, rfl⟩ := hdvd
      rw [tenTo_succ, Nat.mul_right_comm, if_neg (by omega), Nat.mul_div_cancel _ (by decide)]
      have hbound : scale - 1 ≤ bound := by omega
      have hrest := ih hbound (show zeros ≤ scale - 1 by omega)
        (Nat.dvd_mul_right (tenTo zeros) rest)
      omega

/-! ## Adding up the groups behind the point -/

private theorem roundedQuotient_one (n : Nat) : roundedQuotient n (tenTo 0) = n := by
  unfold roundedQuotient
  simp [tenTo, Nat.mod_one]

/-- A sum that fits keeps all its places. -/
theorem sum?_of_lt {first second : Nat × Nat}
    (h : first.1 * tenTo (max first.2 second.2 - first.2) +
      second.1 * tenTo (max first.2 second.2 - second.2) < mantissaLimit) :
    Decimal.sum? first second =
      some (first.1 * tenTo (max first.2 second.2 - first.2) +
        second.1 * tenTo (max first.2 second.2 - second.2), max first.2 second.2) := by
  unfold Decimal.sum? Decimal.fitted
  dsimp only
  generalize max first.2 second.2 = scale at h ⊢
  cases scale <;> rw [Decimal.fittedFrom, roundedQuotient_one, if_pos h, Nat.sub_zero]

private theorem tenTo_sub_mul {m n : Nat} (h : m ≤ n) : tenTo (n - m) * tenTo m = tenTo n := by
  rw [← tenTo_add, Nat.sub_add_cancel h]

/-- One more group is added without losing a place. `part` is the sum up to a group and `whole` the
number up to there in units of the last group; `mantissa` and `scale` are the number that all groups
add up to, which is reached at the latest by a group that goes beyond its last place. -/
theorem sum?_fractionGroup {mantissa scale done whole group : Nat} {part : Nat × Nat}
    (hmantissa : mantissa < mantissaLimit) (hscale : scale ≤ maxScale)
    (hplace : 4 * (done + 1) < scale + 4)
    (hmost : (whole * 10000 + group) * tenTo scale ≤ mantissa * tenTo (4 * (done + 1)))
    (hlast : scale < 4 * (done + 1) →
      (whole * 10000 + group) * tenTo scale = mantissa * tenTo (4 * (done + 1)))
    (hvalue : part.1 * tenTo (4 * done) = whole * tenTo part.2) (hpart : part.2 ≤ scale) :
    ∃ next, Decimal.sum? part (fractionGroup group (4 * (done + 1))) = some next ∧
      next.1 * tenTo (4 * (done + 1)) = (whole * 10000 + group) * tenTo next.2 ∧
      next.2 ≤ scale := by
  have hplaces : 4 * (done + 1) ≤ maxScale := by
    unfold maxScale at hscale ⊢
    omega
  have hgroup : fractionGroup group (4 * (done + 1)) =
      Decimal.dropZeros (4 * (done + 1)) (group, 4 * (done + 1)) := if_pos hplaces
  obtain ⟨hshort, hsame⟩ := dropZeros_value (4 * (done + 1)) group (Nat.le_refl _)
  rw [hgroup]
  generalize hdropped : Decimal.dropZeros (4 * (done + 1)) (group, 4 * (done + 1)) = dropped at *
  -- The last group may reach behind the last place, but only with zeros.
  have hdroppedScale : dropped.2 ≤ scale := by
    by_cases hwithin : 4 * (done + 1) ≤ scale
    · exact hshort.trans hwithin
    · have hzeros : tenTo (4 * (done + 1) - scale) ∣ group := by
        have hexact := hlast (Nat.lt_of_not_le hwithin)
        rw [← tenTo_sub_mul (Nat.le_of_not_le hwithin), ← Nat.mul_assoc] at hexact
        have hwhole : tenTo (4 * (done + 1) - scale) ∣ whole * 10000 := by
          have hfour : 4 * (done + 1) - scale ≤ 4 := by omega
          exact Dvd.dvd.mul_left ⟨_, (tenTo_sub_mul hfour).symm.trans (Nat.mul_comm _ _)⟩ _
        refine (Nat.dvd_add_right hwhole).1 ⟨mantissa, ?_⟩
        rw [Nat.eq_of_mul_eq_mul_right (tenTo_pos scale) hexact, Nat.mul_comm]
      have hdrop := dropZeros_scale (Nat.le_refl (4 * (done + 1))) (Nat.sub_le _ _) hzeros
      rw [hdropped] at hdrop
      omega
  have hnext : max part.2 dropped.2 ≤ scale := max_le hpart hdroppedScale
  have hfirst : part.2 ≤ max part.2 dropped.2 := le_max_left _ _
  have hsecond : dropped.2 ≤ max part.2 dropped.2 := le_max_right _ _
  generalize hplaces : max part.2 dropped.2 = places at hnext hfirst hsecond
  have hsum : (part.1 * tenTo (places - part.2) + dropped.1 * tenTo (places - dropped.2)) *
      tenTo (4 * (done + 1)) = (whole * 10000 + group) * tenTo places := by
    calc
      _ = part.1 * tenTo (4 * done) * 10000 * tenTo (places - part.2) +
          dropped.1 * tenTo (4 * (done + 1)) * tenTo (places - dropped.2) := by
        rw [show tenTo (4 * (done + 1)) = tenTo (4 * done) * 10000 from tenTo_add (4 * done) 4]
        ring
      _ = whole * 10000 * (tenTo (places - part.2) * tenTo part.2) +
          group * (tenTo (places - dropped.2) * tenTo dropped.2) := by
        rw [hvalue, hsame]
        ring
      _ = (whole * 10000 + group) * tenTo places := by
        rw [tenTo_sub_mul hfirst, tenTo_sub_mul hsecond, Nat.add_mul]
  have hfits : part.1 * tenTo (places - part.2) + dropped.1 * tenTo (places - dropped.2) <
      mantissaLimit := by
    have hpower : tenTo places ≤ tenTo scale := Nat.pow_le_pow_right (by decide) hnext
    refine Nat.lt_of_le_of_lt (Nat.le_of_mul_le_mul_right ?_ (tenTo_pos (4 * (done + 1)))) hmantissa
    rw [hsum]
    exact (Nat.mul_le_mul_left _ hpower).trans hmost
  refine ⟨_, sum?_of_lt (by rwa [hplaces]), ?_, ?_⟩
  · rwa [hplaces]
  · rwa [hplaces]

/-- The groups behind the point are added up to the number, with no more places than it has. -/
theorem addFraction_eq_some (part : Nat × Nat) {mantissa scale done whole : Nat}
    {groups : List Nat} (hmantissa : mantissa < mantissaLimit) (hscale : scale ≤ maxScale)
    (hlength : 4 * (done + groups.length) < scale + 4)
    (htotal : (whole * tenTo (4 * groups.length) + groupsValue groups) * tenTo scale =
      mantissa * tenTo (4 * (done + groups.length)))
    (hvalue : part.1 * tenTo (4 * done) = whole * tenTo part.2) (hpart : part.2 ≤ scale) :
    ∃ sum, addFraction part (4 * (done + 1)) groups = some sum ∧
      sum.1 * tenTo scale = mantissa * tenTo sum.2 ∧ sum.2 ≤ scale := by
  induction groups generalizing done whole part with
  | nil =>
    refine ⟨part, rfl, Nat.eq_of_mul_eq_mul_right (tenTo_pos (4 * done)) ?_, hpart⟩
    calc
      part.1 * tenTo scale * tenTo (4 * done) = whole * tenTo scale * tenTo part.2 := by
        rw [Nat.mul_right_comm, hvalue, Nat.mul_right_comm]
      _ = mantissa * tenTo part.2 * tenTo (4 * done) := by
        rw [show whole * tenTo scale = mantissa * tenTo (4 * done) by simpa [tenTo] using htotal]
        ring
  | cons group groups ih =>
    rw [List.length_cons] at hlength htotal
    have hsplit : 4 * (done + (groups.length + 1)) = 4 * (done + 1) + 4 * groups.length := by ring
    have hwhole : whole * tenTo (4 * (groups.length + 1)) + groupsValue (group :: groups) =
        (whole * 10000 + group) * tenTo (4 * groups.length) + groupsValue groups := by
      rw [groupsValue_cons, show tenTo (4 * (groups.length + 1)) = tenTo (4 * groups.length) * 10000
        from tenTo_add (4 * groups.length) 4]
      ring
    rw [hwhole] at htotal
    have hmost : (whole * 10000 + group) * tenTo scale ≤ mantissa * tenTo (4 * (done + 1)) := by
      refine Nat.le_of_mul_le_mul_right ?_ (tenTo_pos (4 * groups.length))
      rw [Nat.mul_right_comm, Nat.mul_assoc mantissa, ← tenTo_add, ← hsplit, ← htotal]
      exact Nat.mul_le_mul_right _ (Nat.le_add_right _ _)
    have hlast : scale < 4 * (done + 1) →
        (whole * 10000 + group) * tenTo scale = mantissa * tenTo (4 * (done + 1)) := by
      intro hbehind
      obtain rfl : groups = [] := List.length_eq_zero_iff.1 (by omega)
      simpa [tenTo] using htotal
    obtain ⟨next, hnext, hsame, hplaces⟩ := sum?_fractionGroup hmantissa hscale (by omega) hmost
      hlast hvalue hpart
    have hbehind : 4 * (done + 1 + groups.length) < scale + 4 := by omega
    obtain ⟨sum, hsum, hresult⟩ := ih next hbehind
      (htotal.trans (by rw [Nat.add_right_comm, Nat.add_assoc])) hsame hplaces
    refine ⟨sum, ?_, hresult⟩
    rw [addFraction, hnext]
    exact hsum

/-! ## The places that are meant -/

/-- A decimal is lengthened by zeros as long as the result fits. -/
theorem lengthen_eq {places mantissa scale : Nat} (hfits : mantissa * tenTo places < mantissaLimit)
    (hscale : scale + places ≤ maxScale) :
    Decimal.lengthen places (mantissa, scale) = (mantissa * tenTo places, scale + places) := by
  induction places generalizing mantissa scale with
  | zero => simp [Decimal.lengthen, tenTo]
  | succ places ih =>
    have hstep : mantissa * tenTo (places + 1) = mantissa * 10 * tenTo places := by
      rw [tenTo_succ]
      ring
    rw [hstep] at hfits ⊢
    have hnext : mantissa * 10 < mantissaLimit :=
      Nat.lt_of_le_of_lt (Nat.le_mul_of_pos_right _ (tenTo_pos places)) hfits
    rw [Decimal.lengthen, if_pos ⟨hnext, by omega⟩, ih hfits (by omega), Nat.add_assoc,
      Nat.add_comm 1]

/-- A number without the zeros at its end gets them back. -/
theorem rescaled_eq {mantissa scale short places : Nat} (hmantissa : mantissa < mantissaLimit)
    (hscale : scale ≤ maxScale) (hzero : mantissa ≠ 0)
    (hsame : short * tenTo scale = mantissa * tenTo places) (hplaces : places ≤ scale) :
    Decimal.rescaled short places scale = (mantissa, scale) := by
  have hshort : short ≠ 0 := by
    rintro rfl
    have hpos := Nat.mul_pos (Nat.pos_of_ne_zero hzero) (tenTo_pos places)
    omega
  have hfull : short * tenTo (scale - places) = mantissa := by
    refine Nat.eq_of_mul_eq_mul_right (tenTo_pos places) ?_
    rw [Nat.mul_assoc, tenTo_sub_mul hplaces, hsame]
  unfold Decimal.rescaled
  rw [if_neg hshort]
  split
  · rename_i hall
    obtain rfl := Nat.le_antisymm hplaces hall
    rw [Nat.sub_self] at hfull ⊢
    rw [← hfull, Decimal.shorten]
    simp [tenTo]
  · rw [lengthen_eq (hfull ▸ hmantissa) (by omega), hfull, Nat.add_sub_cancel' hplaces]

/-! ## Decimals in groups -/

/-- The number of groups in front of the point. -/
def wholeCount (numeric : NumericGroups) : Nat := (numeric.weight + 1).toNat

/-- The number of groups behind the point in front of the first one that is written. -/
def leadingCount (numeric : NumericGroups) : Nat := (-numeric.weight - 1).toNat

theorem wholePart_eq {groups : List Nat} {count : Nat} (h : count ≤ groups.length) :
    wholePart groups count = groupsValue (groups.take count) := by
  unfold wholePart
  rw [Nat.sub_eq_zero_of_le h]
  exact Nat.mul_one _

/-- Groups that add up to a number are read as it. -/
theorem toDecimal?_eq {numeric : NumericGroups} {mantissa : Nat}
    (hmantissa : mantissa < mantissaLimit) (hscale : numeric.scale ≤ maxScale)
    (hzero : mantissa ≠ 0) (hcount : numeric.wholeCount ≤ numeric.groups.length)
    (hlength : 4 * (numeric.leadingCount + (numeric.groups.drop numeric.wholeCount).length) <
      numeric.scale + 4)
    (htotal : groupsValue numeric.groups * tenTo numeric.scale =
      mantissa * tenTo (4 * (numeric.leadingCount +
        (numeric.groups.drop numeric.wholeCount).length))) :
    toDecimal? numeric = Decimal.ofParts? numeric.negative mantissa numeric.scale := by
  generalize hwhole : numeric.wholeCount = whole at *
  have hsplit := groupsValue_append (numeric.groups.take whole) (numeric.groups.drop whole)
  rw [List.take_append_drop] at hsplit
  rw [hsplit] at htotal
  -- There are groups in front of the point, or zeros behind it, but not both.
  have hside : numeric.leadingCount = 0 ∨ groupsValue (numeric.groups.take whole) = 0 := by
    by_cases hlead : numeric.leadingCount = 0
    · exact .inl hlead
    · have hnone : whole = 0 := by
        unfold leadingCount at hlead
        unfold wholeCount at hwhole
        omega
      rw [hnone, List.take_zero]
      exact .inr rfl
  have hstart : groupsValue (numeric.groups.take whole) * tenTo (4 * numeric.leadingCount) =
      groupsValue (numeric.groups.take whole) * tenTo 0 := by
    obtain h | h := hside <;> simp [h]
  have hfits : groupsValue (numeric.groups.take whole) < mantissaLimit := by
    obtain hlead | hnone := hside
    · rw [hlead, Nat.zero_add] at htotal
      have hmost : groupsValue (numeric.groups.take whole) * tenTo numeric.scale ≤ mantissa := by
        refine Nat.le_of_mul_le_mul_right ?_ (tenTo_pos (4 * (numeric.groups.drop whole).length))
        rw [← htotal, Nat.mul_right_comm]
        exact Nat.mul_le_mul_right _ (Nat.le_add_right _ _)
      exact Nat.lt_of_le_of_lt ((Nat.le_mul_of_pos_right _ (tenTo_pos _)).trans hmost) hmantissa
    · rw [hnone]
      exact twoTo_pos 96
  obtain ⟨sum, hsum, hsame, hplaces⟩ := addFraction_eq_some
    (groupsValue (numeric.groups.take whole), 0) hmantissa hscale hlength htotal hstart
    (Nat.zero_le _)
  have hrescaled := rescaled_eq hmantissa hscale hzero hsame hplaces
  have hcount' : ¬maxScale < 4 * (whole - numeric.groups.length) := by omega
  have hplace : 4 * ((-numeric.weight - 1).toNat + 1) = 4 * (numeric.leadingCount + 1) := rfl
  unfold toDecimal?
  dsimp only
  rw [show (numeric.weight + 1).toNat = whole from hwhole, if_neg hcount', wholePart_eq hcount,
    if_neg (Nat.not_le.2 hfits), hplace, hsum]
  rw [Option.bind_eq_bind, Option.bind_some, Nat.min_eq_left hscale, hrescaled]

/-- The decimal that is read back: a zero has neither a sign nor places. -/
def plainZero (x : Decimal) : Decimal :=
  if x.isZero then ⟨false, 0, 0, by decide, Nat.zero_le _⟩ else x

/-- The groups that are written are all but some zeros at the end, which lie behind the point. -/
theorem exists_groups_eq_append (groups : List Nat) (whole : Nat) (h : whole ≤ groups.length) :
    ∃ count, groups = (if 0 < whole then groups.take whole ++ dropFinalZeros (groups.drop whole)
        else groups) ++ List.replicate count 0 ∧
      whole + count ≤ groups.length := by
  split
  · obtain ⟨count, hzeros⟩ := exists_dropFinalZeros (groups.drop whole)
    have hlength := congrArg List.length hzeros
    rw [List.length_append, List.length_replicate, List.length_drop] at hlength
    refine ⟨count, ?_, by omega⟩
    rw [List.append_assoc, ← hzeros, List.take_append_drop]
  · exact ⟨0, (List.append_nil _).symm, by omega⟩

/-- The digits of a decimal fill at most eight groups. -/
private theorem mantissa_mul_lt {mantissa places : Nat} (h : mantissa < mantissaLimit)
    (hplaces : places ≤ 3) : mantissa * tenTo places < tenTo 32 := by
  have hpower : tenTo places ≤ tenTo 3 := Nat.pow_le_pow_right (by decide) hplaces
  calc
    mantissa * tenTo places ≤ mantissaLimit * tenTo 3 := Nat.mul_le_mul h.le hpower
    _ < tenTo 32 := by decide +kernel

theorem ofDecimal_zero {x : Decimal} (h : x.isZero) : ofDecimal x = ⟨[], 0, false, 0⟩ := by
  unfold ofDecimal
  exact if_pos h

/-- What is written of a decimal that is not zero: its groups up to some zeros at the end. -/
theorem exists_ofDecimal_eq {x : Decimal} (h : ¬x.isZero) :
    ∃ kept count, ∃ total ≤ maxGroups,
      ofDecimal x = ⟨kept, total - ((x.scale + 3) / 4 : Nat) - 1, x.negative, x.scale⟩ ∧
      kept.length + count = total ∧ total - (x.scale + 3) / 4 ≤ kept.length ∧
      groupsValue kept * tenTo (4 * count) =
        x.mantissa * tenTo (4 * ((x.scale + 3) / 4) - x.scale) ∧
      ∀ group ∈ kept, group < 10000 := by
  generalize hfraction : (x.scale + 3) / 4 = fraction
  have hvalue := groupsValue_groupsOf
    (mantissa_mul_lt x.mantissa_lt (show 4 * fraction - x.scale ≤ 3 by omega))
  have hlength := length_groupsOf_le (x.mantissa * tenTo (4 * fraction - x.scale))
  have hsmall : ∀ group ∈ groupsOf (x.mantissa * tenTo (4 * fraction - x.scale)), group < 10000 :=
    fun _ ↦ lt_of_mem_groupsOf
  obtain ⟨count, hgroups, hcount⟩ := exists_groups_eq_append
    (groupsOf (x.mantissa * tenTo (4 * fraction - x.scale))) _ (Nat.sub_le _ fraction)
  unfold ofDecimal
  rw [if_neg h, hfraction]
  dsimp only
  generalize groupsOf (x.mantissa * tenTo (4 * fraction - x.scale)) = groups at *
  generalize (if 0 < groups.length - fraction then _ else groups) = kept at hgroups ⊢
  have htotal := congrArg List.length hgroups
  rw [List.length_append, List.length_replicate] at htotal
  refine ⟨kept, count, groups.length, hlength, rfl, htotal.symm, by omega, ?_, fun group hgroup ↦
    hsmall group (hgroups ▸ List.mem_append_left _ hgroup)⟩
  rw [← hvalue, hgroups, groupsValue_append, groupsValue_replicate_zero, List.length_replicate,
    Nat.add_zero]

/-- Only a zero has no groups. -/
theorem groups_ofDecimal_ne_nil {x : Decimal} (h : ¬x.isZero) : (ofDecimal x).groups ≠ [] := by
  obtain ⟨kept, count, total, -, hnumeric, -, -, hvalue, -⟩ := exists_ofDecimal_eq h
  rw [hnumeric]
  rintro rfl
  rw [groupsValue_nil, Nat.zero_mul] at hvalue
  have hmantissa : x.mantissa ≠ 0 := by simpa [Decimal.isZero] using h
  exact absurd hvalue.symm (Nat.mul_ne_zero hmantissa (tenTo_pos _).ne')

/-- A decimal is read back from its groups, up to the sign and the places of a zero. -/
theorem toDecimal?_ofDecimal (x : Decimal) : toDecimal? (ofDecimal x) = some (plainZero x) := by
  by_cases hzero : x.isZero
  · rw [ofDecimal_zero hzero, plainZero, if_pos hzero]
    rfl
  · have hmantissa : x.mantissa ≠ 0 := by simpa [Decimal.isZero] using hzero
    obtain ⟨kept, count, total, -, hnumeric, hlength, hwhole, hvalue, -⟩ :=
      exists_ofDecimal_eq hzero
    generalize hfraction : (x.scale + 3) / 4 = fraction at *
    rw [hnumeric, plainZero, if_neg hzero]
    generalize hnumeric' : (⟨kept, total - fraction - 1, x.negative, x.scale⟩ : NumericGroups) =
      numeric
    have hkept : numeric.groups = kept := by rw [← hnumeric']
    have hscale : numeric.scale = x.scale := by rw [← hnumeric']
    have hnegative : numeric.negative = x.negative := by rw [← hnumeric']
    have hweight : numeric.weight = total - fraction - 1 := by rw [← hnumeric']
    have hcount : numeric.wholeCount = total - fraction := by
      unfold wholeCount
      omega
    have hwritten : numeric.leadingCount + (numeric.groups.drop numeric.wholeCount).length +
        count = fraction := by
      unfold leadingCount
      rw [hcount, hkept, List.length_drop]
      omega
    have htotal : groupsValue numeric.groups * tenTo numeric.scale = x.mantissa *
        tenTo (4 * (numeric.leadingCount +
          (numeric.groups.drop numeric.wholeCount).length)) := by
      generalize numeric.leadingCount + (numeric.groups.drop numeric.wholeCount).length = written
        at hwritten ⊢
      rw [hkept, hscale]
      refine Nat.eq_of_mul_eq_mul_right (tenTo_pos (4 * count)) ?_
      calc
        groupsValue kept * tenTo x.scale * tenTo (4 * count) =
            x.mantissa * (tenTo (4 * fraction - x.scale) * tenTo x.scale) := by
          rw [Nat.mul_right_comm, hvalue, Nat.mul_assoc]
        _ = x.mantissa * tenTo (4 * written) * tenTo (4 * count) := by
          rw [tenTo_sub_mul (by omega), Nat.mul_assoc, ← tenTo_add, ← Nat.mul_add, hwritten]
    have hplaces : numeric.scale ≤ maxScale := hscale ▸ x.scale_le
    rw [toDecimal?_eq x.mantissa_lt hplaces hmantissa (by rw [hcount, hkept]; omega) (by omega)
      htotal, hnegative, hscale]
    exact dif_pos ⟨x.mantissa_lt, x.scale_le⟩

/-! ## Groups in bytes -/

/-- What the fields of the byte form hold. -/
structure Sendable (numeric : NumericGroups) : Prop where
  count : numeric.groups.length < twoTo 16
  weight : fitsSigned 2 numeric.weight
  scale : numeric.scale < twoTo 16
  groups : ∀ group ∈ numeric.groups, group < twoTo 16

theorem length_toBytes (numeric : NumericGroups) :
    numeric.toBytes.length = 8 + 2 * numeric.groups.length := by
  have hgroups (groups : List Nat) : (groups.flatMap (bigEndian 2)).length = 2 * groups.length := by
    induction groups with
    | nil => rfl
    | cons group groups ih =>
      rw [List.flatMap_cons, List.length_append, ih, length_bigEndian, List.length_cons]
      omega
  have hsign : (signBytes numeric.negative).length = 2 := by
    unfold signBytes
    split <;> rfl
  unfold toBytes
  simp only [List.length_append, hgroups, hsign, length_bigEndian, length_signedBytes]

private theorem exists_bigEndian_two (n : Nat) :
    ∃ high low, bigEndian 2 n = [high, low] := ⟨_, _, rfl⟩

theorem readGroups_flatMap {groups : List Nat} (h : ∀ group ∈ groups, group < twoTo 16) :
    readGroups groups.length (groups.flatMap (bigEndian 2)) = some groups := by
  induction groups with
  | nil => rfl
  | cons group groups ih =>
    obtain ⟨high, low, hbytes⟩ := exists_bigEndian_two group
    have hgroup : ofBigEndian (bigEndian 2 group) = group :=
      ofBigEndian_bigEndian_of_lt (h group List.mem_cons_self)
    rw [List.flatMap_cons, hbytes, List.length_cons]
    rw [hbytes] at hgroup
    show (readGroups groups.length (groups.flatMap (bigEndian 2))).bind _ = _
    rw [ih (fun group hgroup ↦ h group (List.mem_cons_of_mem _ hgroup)), hgroup]
    rfl

/-- Groups are read back from their bytes. -/
theorem ofBytes?_toBytes {numeric : NumericGroups} (h : numeric.Sendable) :
    ofBytes? numeric.toBytes = some numeric := by
  obtain ⟨groups, weight, negative, scale⟩ := numeric
  obtain ⟨hcount, hweight, hscale, hgroups⟩ := h
  have hcountRead : ofBigEndian (bigEndian 2 groups.length) = groups.length :=
    ofBigEndian_bigEndian_of_lt hcount
  have hweightRead := ofSignedBytes_signedBytes hweight
  have hscaleRead : ofBigEndian (bigEndian 2 scale) = scale := ofBigEndian_bigEndian_of_lt hscale
  have hgroupsRead := readGroups_flatMap hgroups
  unfold ofBytes? toBytes
  dsimp only at *
  obtain ⟨countHigh, countLow, hcountBytes⟩ := exists_bigEndian_two groups.length
  obtain ⟨weightHigh, weightLow, hweightBytes⟩ : ∃ high low, signedBytes 2 weight = [high, low] :=
    exists_bigEndian_two _
  obtain ⟨scaleHigh, scaleLow, hscaleBytes⟩ := exists_bigEndian_two scale
  rw [hcountBytes] at hcountRead ⊢
  rw [hweightBytes] at hweightRead ⊢
  rw [hscaleBytes] at hscaleRead ⊢
  cases negative with
  | false =>
    simp [signBytes, hcountRead, hweightRead, hscaleRead, hgroupsRead]
    decide
  | true =>
    simp [signBytes, hcountRead, hweightRead, hscaleRead, hgroupsRead]
    decide

/-- The groups of a decimal fit their byte form. -/
theorem sendable_ofDecimal (x : Decimal) : (ofDecimal x).Sendable := by
  by_cases hzero : x.isZero
  · rw [ofDecimal_zero hzero]
    exact ⟨by decide, by decide, by decide, by simp⟩
  · obtain ⟨kept, count, total, hmost, hnumeric, hlength, -, -, hsmall⟩ :=
      exists_ofDecimal_eq hzero
    have hscale : x.scale ≤ 28 := x.scale_le
    have hlimit : twoTo 16 = 65536 := by decide
    unfold maxGroups at hmost
    rw [hnumeric]
    refine ⟨?_, ?_, ?_, fun group hgroup ↦ (hsmall group hgroup).trans (by decide)⟩
    · dsimp only
      omega
    · rw [fitsSigned_iff, show twoTo (8 * 2) = 65536 by decide]
      dsimp only
      omega
    · dsimp only
      omega

end NumericGroups
end SqlComposer
