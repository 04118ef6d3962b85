import Haulage.Proofs.Copy.Planning
import Haulage.Proofs.Text.Words
import Mathlib.Data.List.Perm.Basic
import Mathlib.Data.Set.Defs

/-!
# Values in a consistent order

Two column values compare as numbers when both of them are numbers, and as texts otherwise. Turning
the values round always turns the answer round. Either of the two orders is transitive, but together
they need not be: a text can stand between two numbers that do not come in the order of their texts.
The newest of such values is then a matter of the order in which they are looked at, and so is the
watermark of a target that holds them.

- `compareValues_swap`: the comparison of two values the other way round.
- `consistent_iff_forall_not_straddles`: on which values being newer is transitive.
- `foldl_newest_spec`: on such values no value is newer than the newest one.
- `isSteady_iff`: when the watermark does not hang on the order of the rows.
- `order_consistent_iff`: all of this for any values.
- `years_inconsistent`: three values of which each is newer than the next one, and the
  last equals the first.
-/

set_option autoImplicit false

namespace Haulage

open Haulage.Numeric Haulage.Text

variable {a b c : String}

/-! ## The two orders -/

theorem compareTexts_swap (a b : String) : compareTexts b a = (compareTexts a b).swap := by
  rcases lt_trichotomy a b with hlt | rfl | hgt
  · simp [compareTexts, hlt, lt_asymm hlt, hlt.ne']
  · simp [compareTexts]
  · simp [compareTexts, hgt, lt_asymm hgt, hgt.ne']

theorem compare?_swap (x y : Binary64) : y.compare? x = (x.compare? y).map Ordering.swap := by
  rw [Binary64.compare?, Binary64.compare?]
  cases x.rank? with
  | none => cases y.rank? <;> rfl
  | some i =>
      cases y.rank? with
      | none => rfl
      | some j => exact congrArg some Std.OrientedCmp.eq_swap

/-- The comparison of two values the other way round. -/
theorem compareValues_swap (a b : String) : compareValues b a = (compareValues a b).swap := by
  rw [compareValues, compareValues]
  cases readLiteral? a with
  | none => cases readLiteral? b <;> exact compareTexts_swap a b
  | some x =>
      cases readLiteral? b with
      | none => exact compareTexts_swap a b
      | some y =>
          simp only [compare?_swap x y]
          cases x.compare? y <;> rfl

theorem not_newer_of_newer (h : compareValues a b = .gt) : compareValues b a ≠ .gt := by
  rw [compareValues_swap a b, h]
  exact Ordering.noConfusion

theorem not_newer_self (v : String) : compareValues v v ≠ .gt := fun h => not_newer_of_newer h h

/-- Values of which neither is newer than the other one are equal. -/
theorem compareValues_eq_eq (hab : compareValues a b ≠ .gt) (hba : compareValues b a ≠ .gt) :
    compareValues a b = .eq := by
  rw [compareValues_swap a b] at hba
  cases h : compareValues a b with
  | lt => simp [h] at hba
  | eq => rfl
  | gt => exact absurd h hab

/-- A text compares with anything as a text. -/
theorem newer_iff_of_text (h : readLiteral? a = none ∨ readLiteral? b = none) :
    compareValues a b = .gt ↔ b < a := by
  have htexts : compareValues a b = compareTexts a b := by
    rw [compareValues]
    rcases h with h | h
    · rw [h]
    · rw [h]
      cases readLiteral? a <;> rfl
  rw [htexts, compareTexts_eq_gt_iff]

/-- Numbers compare by their places in the numeric order, which a NaN lacks. -/
theorem newer_iff_of_numbers {x y : Binary64} (hx : readLiteral? a = some x)
    (hy : readLiteral? b = some y) :
    compareValues a b = .gt ↔ ∃ i j, x.rank? = some i ∧ y.rank? = some j ∧ j < i := by
  simp only [compareValues, hx, hy, Binary64.compare?]
  cases x.rank? with
  | none => simp
  | some i =>
      cases y.rank? with
      | none => simp
      | some j => simp [compare_gt_iff_gt]

/-! ## Transitivity -/

/-- Values on which being newer is transitive. -/
def Consistent (values : Set String) : Prop :=
  ∀ a ∈ values, ∀ b ∈ values, ∀ c ∈ values,
    compareValues a b = .gt → compareValues b c = .gt → compareValues a c = .gt

/-- A text between two numbers that do not come in the order of their texts. -/
structure Straddles (low text high : String) : Prop where
  lowNumber : (readLiteral? low).isSome = true
  highNumber : (readLiteral? high).isSome = true
  noNumber : readLiteral? text = none
  above : low < text
  below : text < high
  disordered : compareValues high low ≠ .gt

theorem newer_trans_of_numbers {x y z : Binary64} (hx : readLiteral? a = some x)
    (hy : readLiteral? b = some y) (hz : readLiteral? c = some z) (hab : compareValues a b = .gt)
    (hbc : compareValues b c = .gt) : compareValues a c = .gt := by
  obtain ⟨i, j, hi, hj, hlt⟩ := (newer_iff_of_numbers hx hy).mp hab
  obtain ⟨j', k, hj', hk, hlt'⟩ := (newer_iff_of_numbers hy hz).mp hbc
  obtain rfl : j = j' := Option.some.inj (hj.symm.trans hj')
  exact (newer_iff_of_numbers hx hz).mpr ⟨i, k, hi, hk, hlt'.trans hlt⟩

theorem ne_of_text_of_number {x : Binary64} (ha : readLiteral? a = none)
    (hb : readLiteral? b = some x) : a ≠ b := by
  rintro rfl
  rw [ha] at hb
  cases hb

/-- Three values without such a text among them compare transitively. -/
theorem newer_trans (hbac : ¬Straddles b a c) (hcba : ¬Straddles c b a) (hacb : ¬Straddles a c b)
    (hab : compareValues a b = .gt) (hbc : compareValues b c = .gt) : compareValues a c = .gt := by
  -- with no number or one of them only texts meet, and with two of them the third value is the text
  cases ha : readLiteral? a with
  | none =>
      rw [newer_iff_of_text (.inl ha)] at hab ⊢
      cases hb : readLiteral? b with
      | none =>
          rw [newer_iff_of_text (.inl hb)] at hbc
          exact hbc.trans hab
      | some y =>
          cases hc : readLiteral? c with
          | none =>
              rw [newer_iff_of_text (.inr hc)] at hbc
              exact hbc.trans hab
          | some z =>
              by_contra hca
              have hac : a < c := lt_of_le_of_ne (not_lt.mp hca) (ne_of_text_of_number ha hc)
              exact hbac ⟨by rw [hb]; rfl, by rw [hc]; rfl, ha, hab, hac, not_newer_of_newer hbc⟩
  | some x =>
      cases hb : readLiteral? b with
      | none =>
          rw [newer_iff_of_text (.inr hb)] at hab
          rw [newer_iff_of_text (.inl hb)] at hbc
          cases hc : readLiteral? c with
          | none =>
              rw [newer_iff_of_text (.inr hc)]
              exact hbc.trans hab
          | some z =>
              by_contra hac
              exact hcba ⟨by rw [hc]; rfl, by rw [ha]; rfl, hb, hbc, hab, hac⟩
      | some y =>
          cases hc : readLiteral? c with
          | none =>
              rw [newer_iff_of_text (.inr hc)] at hbc ⊢
              by_contra hca
              have hac : a < c := lt_of_le_of_ne (not_lt.mp hca) (ne_of_text_of_number hc ha).symm
              exact hacb ⟨by rw [ha]; rfl, by rw [hb]; rfl, hc, hac, hbc, not_newer_of_newer hab⟩
          | some z => exact newer_trans_of_numbers ha hb hc hab hbc

/-- Being newer is transitive on values among which no text stands between two numbers that come the
other way round. -/
theorem consistent_iff_forall_not_straddles {values : Set String} :
    Consistent values ↔
      ∀ low ∈ values, ∀ text ∈ values, ∀ high ∈ values, ¬Straddles low text high := by
  constructor
  · intro h low hlow text htext high hhigh hstraddles
    refine hstraddles.disordered (h high hhigh text htext low hlow ?_ ?_)
    · exact (newer_iff_of_text (.inr hstraddles.noNumber)).mpr hstraddles.below
    · exact (newer_iff_of_text (.inl hstraddles.noNumber)).mpr hstraddles.above
  · intro h a ha b hb c hc
    exact newer_trans (h b hb a ha c hc) (h c hc b hb a ha) (h a ha c hc b hb)

/-! ## The newest of consistent values -/

/-- Two watermarks of which neither is newer than the other one. -/
inductive Agree : Option String → Option String → Prop
  | absent : Agree none none
  | equal {w w' : String} (h : compareValues w w' = .eq) : Agree (some w) (some w')

/-- The newer one of a watermark and a value: the value, if it is newer or the first one, or the
watermark. -/
theorem newest_cases (mark : Option String) {v : String} (hv : v ≠ "") :
    (CopyPlan.newest mark v = some v ∧ ∀ m ∈ mark, compareValues v m = .gt) ∨
      ∃ m ∈ mark, CopyPlan.newest mark v = some m ∧ compareValues v m ≠ .gt := by
  have hfull : v.isEmpty = false := by simpa using hv
  simp only [CopyPlan.newest]
  rw [hfull, if_neg Bool.false_ne_true]
  cases mark with
  | none => exact .inl ⟨rfl, fun m hm => by cases hm⟩
  | some m =>
      by_cases hnewer : compareValues v m = .gt
      · exact .inl ⟨if_pos hnewer, fun m' hm' => Option.mem_some.mp hm' ▸ hnewer⟩
      · exact .inr ⟨m, rfl, if_neg hnewer, hnewer⟩

section Newest

variable {values : Set String} {column reordered : List String} {w : String}

/-- On consistent values the newest one is no older than the watermark before them, and none of
them is newer. -/
theorem foldl_newest_spec (h : Consistent values) {mark : Option String}
    (hmark : ∀ m ∈ mark, m ∈ values) (hcolumn : ∀ v ∈ column, v ∈ values ∧ v ≠ "")
    (hw : w ∈ column.foldl CopyPlan.newest mark) :
    (∀ m ∈ mark, w = m ∨ compareValues w m = .gt) ∧ ∀ v ∈ column, compareValues v w ≠ .gt := by
  induction column generalizing mark with
  | nil =>
      refine ⟨fun m hm => .inl (Option.mem_unique hw hm), fun v hv => ?_⟩
      exact absurd hv List.not_mem_nil
  | cons v more ih =>
      have hwvalue : w ∈ values := by
        rcases CopyPlan.mem_foldl_newest hw with hwmark | hwcolumn
        · exact hmark w hwmark
        · exact (hcolumn w hwcolumn).1
      obtain ⟨⟨hvalue, hne⟩, hmore⟩ := List.forall_mem_cons.mp hcolumn
      rw [List.foldl_cons] at hw
      rcases newest_cases mark hne with ⟨hnewest, hnewer⟩ | ⟨m, hm, hnewest, holder⟩
      · rw [hnewest] at hw
        obtain ⟨hkept, hnone⟩ := ih (fun m hm => Option.mem_some.mp hm ▸ hvalue) hmore hw
        refine ⟨fun m hm => ?_, List.forall_mem_cons.mpr ⟨?_, hnone⟩⟩
        · rcases hkept v rfl with rfl | hgt
          · exact .inr (hnewer m hm)
          · exact .inr (h w hwvalue v hvalue m (hmark m hm) hgt (hnewer m hm))
        · rcases hkept v rfl with rfl | hgt
          · exact not_newer_self w
          · exact not_newer_of_newer hgt
      · rw [hnewest] at hw
        have hmvalue : m ∈ values := hmark m hm
        obtain ⟨hkept, hnone⟩ := ih (fun m' hm' => Option.mem_some.mp hm' ▸ hmvalue) hmore hw
        refine ⟨fun m' hm' => ?_, List.forall_mem_cons.mpr ⟨fun hgt => ?_, hnone⟩⟩
        · exact Option.mem_unique hm hm' ▸ hkept m rfl
        · -- what is newer than the newest value is newer than the watermark that it did not replace
          rcases hkept m rfl with rfl | hwm
          · exact holder hgt
          · exact holder (h v hvalue w hwvalue m hmvalue hgt hwm)

/-- The newest of consistent values is the same one, or one equal to it, in any order. -/
theorem agree_of_perm (h : Consistent values) (hcolumn : ∀ v ∈ column, v ∈ values ∧ v ≠ "")
    (hperm : column.Perm reordered) :
    Agree (column.foldl CopyPlan.newest none) (reordered.foldl CopyPlan.newest none) := by
  have hreordered : ∀ v ∈ reordered, v ∈ values ∧ v ≠ "" :=
    fun v hv => hcolumn v (hperm.mem_iff.mpr hv)
  have hnone : column.foldl CopyPlan.newest none = none ↔
      reordered.foldl CopyPlan.newest none = none := by
    simp only [CopyPlan.foldl_newest_eq_none_iff, hperm.mem_iff]
  cases hw : column.foldl CopyPlan.newest none with
  | none =>
      rw [hnone.mp hw]
      exact .absent
  | some w =>
      cases hw' : reordered.foldl CopyPlan.newest none with
      | none =>
          rw [hnone.mpr hw'] at hw
          cases hw
      | some w' =>
          have hnomark : ∀ m ∈ (none : Option String), m ∈ values := fun m hm => by cases hm
          have hmem : w ∈ column := (CopyPlan.mem_foldl_newest hw).resolve_left (by simp)
          have hmem' : w' ∈ reordered := (CopyPlan.mem_foldl_newest hw').resolve_left (by simp)
          have hnewest := (foldl_newest_spec h hnomark hcolumn hw).2
          have hnewest' := (foldl_newest_spec h hnomark hreordered hw').2
          -- both are newest of the same values, so neither is newer than the other
          exact .equal (compareValues_eq_eq (hnewest' w (hperm.mem_iff.mp hmem))
            (hnewest w' (hperm.mem_iff.mpr hmem')))

end Newest

/-! ## Watermarks of targets -/

/-- A text that a row can hold in a column, the blanks around it aside. -/
structure IsCell (v : String) : Prop where
  trimmed : IsTrimmed v.toList
  noComma : ',' ∉ v.toList

theorem isCell_updateValue (column : Nat) (line : String) : IsCell (updateValue column line) := by
  rw [updateValue, fieldAt_trimmedFields]
  constructor
  · rw [toList_trim]
    exact isTrimmed_trimChars _
  · exact not_mem_trim (comma_not_mem_fieldAt line column)

/-- A row that holds nothing else has its text as the value of its first column. -/
theorem IsCell.updateValue_zero {v : String} (h : IsCell v) : updateValue 0 v = v := by
  have hfields : fields v = [v] := by
    rw [fields, split, splitChars_of_not_mem h.noComma, List.map_singleton, String.ofList_toList]
  have htrim : trim v = v := by
    rw [trim, trimChars_of_isTrimmed h.trimmed, String.ofList_toList]
  rw [updateValue, fieldAt_trimmedFields, hfields]
  exact htrim

/-- In whatever order the rows of a target come, its watermarks agree, as long as its update values
are of the given ones. -/
def IsSteady (values : Set String) : Prop :=
  ∀ (target : Path) (o : RunOptions) (key header : String) (column : Nat)
    (rows reordered : List String),
    o.isIncremental = true → o.updateKey = some key → IsColumn header (trim key) column →
    (∀ v ∈ valuesOf column rows, v ∈ values) → rows.Perm reordered →
    ∃ mark mark', CopyPlan.ofLines target o ((header :: rows).map .ok) = .ok ⟨true, mark⟩ ∧
      CopyPlan.ofLines target o ((header :: reordered).map .ok) = .ok ⟨true, mark'⟩ ∧
        Agree mark mark'

/-- Watermarks do not hang on the order of the rows when the values that rows can hold are
consistent. -/
theorem IsSteady.of_consistent {values : Set String} (h : Consistent {v ∈ values | IsCell v}) :
    IsSteady values := by
  intro target o key header column rows reordered hincremental hkey hcolumn hvalues hperm
  have hplan := CopyPlan.ofLines_map_ok hincremental hkey (columnIndex_eq_ok_iff.mpr hcolumn) target
  refine ⟨_, _, hplan rows, hplan reordered, ?_⟩
  rw [watermarkOf_eq_foldl, watermarkOf_eq_foldl]
  refine agree_of_perm h (fun v hv => ?_) ((hperm.map _).filter _)
  obtain ⟨hne, row, -, rfl⟩ := mem_valuesOf_iff.mp hv
  exact ⟨⟨hvalues _ hv, isCell_updateValue column row⟩, hne⟩

theorem empty_lt_of_ne {v : String} (h : v ≠ "") : "" < v := by
  rw [String.lt_iff_toList_lt]
  cases hv : v.toList with
  | nil => exact absurd (String.toList_eq_nil_iff.mp hv) h
  | cons first rest => exact List.nil_lt_cons first rest

/-- Three values that are not consistent make up a column whose watermark hangs on the order. -/
theorem not_agree_of_newer (hab : compareValues a b = .gt) (hbc : compareValues b c = .gt)
    (hac : compareValues a c ≠ .gt) :
    a ≠ "" ∧ b ≠ "" ∧ c ≠ "" ∧ [c, b, a].foldl CopyPlan.newest none = some a ∧
      [c, a, b].foldl CopyPlan.newest none = some b := by
  have hane : a ≠ "" := fun heq => compareValues_empty_ne_gt b (heq ▸ hab)
  have hbne : b ≠ "" := fun heq => compareValues_empty_ne_gt c (heq ▸ hbc)
  have hcne : c ≠ "" := by
    rintro rfl
    exact hac ((newer_iff_of_text (.inr rfl)).mpr (empty_lt_of_ne hane))
  have hfull : ∀ v : String, v ≠ "" → v.isEmpty = false := fun v hv => by simpa using hv
  refine ⟨hane, hbne, hcne, ?_, ?_⟩
  · simp [CopyPlan.newest, hfull a hane, hfull b hbne, hfull c hcne, hab, hbc]
  · simp [CopyPlan.newest, hfull a hane, hfull b hbne, hfull c hcne, hac, hbc]

/-- Watermarks hang on the order of the rows only where the values that rows can hold are not
consistent. -/
theorem isSteady_iff {values : Set String} :
    IsSteady values ↔ Consistent {v ∈ values | IsCell v} := by
  refine ⟨?_, .of_consistent⟩
  rintro h a ⟨ha, hacell⟩ b ⟨hb, hbcell⟩ c ⟨hc, hccell⟩ hab hbc
  by_contra hac
  obtain ⟨hane, hbne, hcne, hup, hdown⟩ := not_agree_of_newer hab hbc hac
  -- a table of one column, whose rows are the three values
  let o : RunOptions :=
    { RunOptions.between "in.csv" "out.csv" .incremental with updateKey := some "v" }
  have hcolumn : IsColumn "v" (trim "v") 0 := columnIndex_eq_ok_iff.mp rfl
  have hvalues : ∀ v ∈ valuesOf 0 [c, b, a], v ∈ values := by
    intro v hv
    obtain ⟨-, row, hrow, rfl⟩ := mem_valuesOf_iff.mp hv
    simp only [List.mem_cons, List.not_mem_nil, or_false] at hrow
    rcases hrow with rfl | rfl | rfl
    · rw [hccell.updateValue_zero]; exact hc
    · rw [hbcell.updateValue_zero]; exact hb
    · rw [hacell.updateValue_zero]; exact ha
  obtain ⟨mark, mark', hplan, hplan', hagree⟩ :=
    h ⟨"out.csv"⟩ o "v" "v" 0 [c, b, a] [c, a, b] rfl rfl hcolumn hvalues
      ((List.Perm.swap a b []).cons c)
  have hwatermarks : ∀ rows, CopyPlan.ofLines ⟨"out.csv"⟩ o (("v" :: rows).map .ok) =
      .ok ⟨true, watermarkOf 0 rows⟩ :=
    CopyPlan.ofLines_map_ok rfl rfl (columnIndex_eq_ok_iff.mpr hcolumn) ⟨"out.csv"⟩
  rw [hwatermarks, Except.ok.injEq, CopyPlan.mk.injEq] at hplan hplan'
  have hmarks : watermarkOf 0 [c, b, a] = some a ∧ watermarkOf 0 [c, a, b] = some b := by
    simp only [watermarkOf, List.map_cons, List.map_nil, hacell.updateValue_zero,
      hbcell.updateValue_zero, hccell.updateValue_zero]
    exact ⟨hup, hdown⟩
  rw [← hplan.2, ← hplan'.2, hmarks.1, hmarks.2] at hagree
  cases hagree with
  | equal heq =>
      rw [hab] at heq
      cases heq

/-- The order of any values: turned round with its values, transitive unless a text stands between
two numbers that come the other way round, and the same watermark for every order of rows exactly
where it is transitive on what rows can hold. -/
theorem order_consistent_iff (values : Set String) :
    (∀ a b, compareValues b a = (compareValues a b).swap) ∧
      (Consistent values ↔
        ∀ low ∈ values, ∀ text ∈ values, ∀ high ∈ values, ¬Straddles low text high) ∧
      (IsSteady values ↔ Consistent {v ∈ values | IsCell v}) :=
  ⟨compareValues_swap, consistent_iff_forall_not_straddles, isSteady_iff⟩

/-- A run that adds newer years. -/
def newerYears : RunOptions :=
  { RunOptions.between "in.csv" "out.csv" .incremental with updateKey := some "year" }

/-- A month of a year between two ways to write the year: each is newer than the next one, the last
equals the first, and the watermark is another one when the rows come in another order. -/
theorem years_inconsistent :
    compareValues "2024.0" "2024-05" = .gt ∧ compareValues "2024-05" "2024" = .gt ∧
      compareValues "2024.0" "2024" = .eq ∧
      CopyPlan.ofLines ⟨"out.csv"⟩ newerYears (["year", "2024", "2024.0", "2024-05"].map .ok) =
        .ok ⟨true, some "2024-05"⟩ ∧
      CopyPlan.ofLines ⟨"out.csv"⟩ newerYears (["year", "2024", "2024-05", "2024.0"].map .ok) =
        .ok ⟨true, some "2024.0"⟩ := by
  have hplan : ∀ rows, CopyPlan.ofLines ⟨"out.csv"⟩ newerYears (("year" :: rows).map .ok) =
      .ok ⟨true, watermarkOf 0 rows⟩ :=
    CopyPlan.ofLines_map_ok rfl rfl rfl ⟨"out.csv"⟩
  have hmonth : watermarkOf 0 ["2024", "2024.0", "2024-05"] = some "2024-05" := by decide +kernel
  have hyear : watermarkOf 0 ["2024", "2024-05", "2024.0"] = some "2024.0" := by decide +kernel
  refine ⟨by decide +kernel, by decide +kernel, by decide +kernel, ?_, ?_⟩
  · rw [hplan, hmonth]
  · rw [hplan, hyear]

end Haulage
