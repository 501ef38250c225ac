-- SUMMARY: Where the bytes of a struct go: fields, gaps, tail, and the byte of a zero-size last field.
import StructPadding.Analysis.Report
import StructPadding.Package.Resolve
import StructPadding.Proofs.Layout.CheckedSize
import StructPadding.Proofs.Outcome

/-!
# Accounting

On a struct that has a checked size, the actual size exceeds the reference size by exactly what a report
lists: the gaps before fields and the tail, and one more byte where a zero-size last field takes one. A
struct is reported exactly where one of the three is not zero.
-/

namespace StructPadding

/-! ## Placing -/

namespace Extent

/-- The byte that a zero-size last field takes when bytes lie before it. -/
def lastByteFrom (used : Nat) (es : List Extent) (slots : List Slot) : Nat :=
  if es.getLast?.map size = some 0 ∧ (slots.dropLast.getLast?.map Slot.stop).getD used ≠ 0 then 1 else 0

theorem lastByteFrom_singleton (used : Nat) (e : Extent) (s : Slot) :
    e.size + lastByteFrom used [e] [s] = e.occupied true used := by
  by_cases h : e.size = 0 ∧ used ≠ 0
  · simp [lastByteFrom, occupied, h.1, h.2]
  · simp only [lastByteFrom, occupied, List.getLast?_singleton, Option.map_some, Option.some.injEq,
      List.dropLast_singleton, List.getLast?_nil, Option.map_none, Option.getD_none, true_and, h, ↓reduceIte,
      Nat.add_zero]

theorem lastByteFrom_cons_cons (used : Nat) (e d : Extent) (es : List Extent) (s t : Slot) (slots : List Slot) :
    lastByteFrom used (e :: d :: es) (s :: t :: slots) = lastByteFrom s.stop (d :: es) (t :: slots) := by
  simp only [lastByteFrom, List.dropLast_cons_cons, List.getLast?_cons, Option.map_some,
    Option.getD_some]
  cases (t :: slots).dropLast.getLast? <;> rfl

/-- The checked end counts the bytes before the fields, the gaps, the fields and the last byte. -/
theorem checkedStop_eq_sum {es : List Extent} (ha : ∀ e ∈ es, 0 < e.align) {used t : Nat} (index : Nat)
    (h : checkedStop used es = some t) :
    t = used + ((placeFrom index used es).map Slot.paddingBefore).sum + (es.map size).sum +
      lastByteFrom used es (placeFrom index used es) := by
  induction es generalizing index used with
  | nil =>
    obtain rfl := Option.some.inj h
    simp [placeFrom, lastByteFrom]
  | cons e rest ih =>
    obtain ⟨slot, hslot, hplace, hrest⟩ := follows_of_checkedStop (ha e (List.mem_cons_self ..)) index h
    have hoffset := hslot.offset_eq
    have hstop := hslot.stop_eq
    have hsize := hslot.size_eq
    have hsum := ih (fun d hd => ha d (List.mem_cons_of_mem _ hd)) (index + 1) hrest
    simp only [hplace, List.map_cons, List.sum_cons]
    cases rest with
    | nil =>
      obtain rfl := Option.some.inj hrest
      have hlast := lastByteFrom_singleton used e slot
      simp only [placeFrom, List.isEmpty_nil, List.map_nil, List.sum_nil] at hsize ⊢
      omega
    | cons d ds =>
      have hnotLast : e.occupied (d :: ds).isEmpty used = e.size := by simp [occupied]
      simp only [placeFrom] at hsum ⊢
      rw [lastByteFrom_cons_cons]
      omega

end Extent

/-! ## Structs -/

/-- The byte that a zero-size last field takes behind fields that end at a nonzero offset. -/
def trailingByte (m : Machine) (fields : List Field) : Nat :=
  if fields.getLast?.map (fun f => (f.extent m).size) = some 0 ∧
      (((fieldSlots m fields).dropLast.getLast?).map Slot.stop).getD 0 ≠ 0 then 1 else 0

/-- A checked size of a struct is that of the placed extents of its fields. -/
theorem checkedStructSize_of_checkedActualSize {m : Machine} {fields : List Field} {size : Nat}
    (h : checkedActualSize m fields = some size) :
    Extent.checkedStructSize m (extents m fields) = some size := by
  obtain ⟨hfit, rfl⟩ := Shape.checkedSize_eq_some_iff.1 h
  exact hfit.checkedStructSize

/-- The size of a struct is that of its fields, the gaps between them, the tail and the trailing byte. -/
theorem actualSize_eq_sum {m : Machine} {fields : List Field} {size : Nat}
    (h : checkedActualSize m fields = some size) :
    actualSize m fields = referenceSize m fields + ((fieldSlots m fields).map Slot.paddingBefore).sum +
      tailPadding m fields + trailingByte m fields := by
  have hstruct := checkedStructSize_of_checkedActualSize h
  have hsize := Extent.structSize_of_checkedStructSize hstruct
  obtain ⟨stop, hstop, hge, -⟩ := Extent.checkedStop_of_checkedStructSize hstruct
  have hsum := Extent.checkedStop_eq_sum (fun e he => extents_align_pos he) 0 hstop
  have hend : Extent.stop (extents m fields) = stop := by
    rw [Extent.stop_eq_stopFrom]
    exact (Extent.stopFrom_of_checkedStop hstop).2
  have hnet := referenceSize_eq_sum h
  have hbyte : Extent.lastByteFrom 0 (extents m fields) (fieldSlots m fields) = trailingByte m fields := by
    simp only [Extent.lastByteFrom, trailingByte, extents_eq_map, List.getLast?_map, Option.map_map]
    rfl
  rw [← hbyte, hnet, actualSize, tailPadding, Extent.tailPadding, hsize, hend]
  simp only [fieldSlots, Extent.place] at hsum ⊢
  omega

/-! ## Verdicts and reports -/

theorem Finding.ofFields?_eq_some_iff {m : Machine} {fields : List Field} {f : Finding} :
    Finding.ofFields? m fields = some f ↔
      actualSize m fields ≠ referenceSize m fields ∧ f = ⟨actualSize m fields, referenceSize m fields⟩ := by
  simp only [Finding.ofFields?]
  split <;> grind

/-- Leaving out the slots without a gap leaves out no byte. -/
theorem Report.sum_gaps_zip {fields : List Field} {slots : List Slot} (h : fields.length = slots.length) :
    (((fields.zip slots).filterMap fun (f, slot) =>
      if slot.paddingBefore = 0 then none else some (f.name, slot.paddingBefore)).map Prod.snd).sum =
      (slots.map Slot.paddingBefore).sum := by
  induction slots generalizing fields with
  | nil => simp
  | cons slot rest ih =>
    cases fields with
    | nil => simp at h
    | cons f fs =>
      have hlength : fs.length = rest.length := by simpa using h
      have hrest := ih hlength
      by_cases hz : slot.paddingBefore = 0 <;> simp [hz, hrest]

/-- The gaps of a report are all the padding between the fields. -/
theorem Report.sum_gapsOf (m : Machine) (fields : List Field) :
    ((Report.gapsOf m fields).map Prod.snd).sum = ((fieldSlots m fields).map Slot.paddingBefore).sum := by
  apply sum_gaps_zip
  simp [fieldSlots, Extent.place, Extent.length_placeFrom]

/-- Fields that are resolved have a checked size: without one, resolution fails at the literal. -/
theorem Resolver.checkedActualSize_of_structWith {scope : Scope} {m : Machine} {env : Env} {names : Names}
    {st : StructType} {r next : Resolver} {fields : List Field}
    (h : structWith scope m env names st r = .ok fields next) : ∃ size, checkedActualSize m fields = some size := by
  cases st with
  | mk decls keyword span =>
    rw [structWith, bind_eq_ok_iff] at h
    obtain ⟨resolved, u, -, h⟩ := h
    cases hsize : checkedActualSize m resolved with
    | none =>
      simp only [hsize, Option.isNone_none, ↓reduceIte, bind_eq_ok_iff] at h
      obtain ⟨_, _, h, -⟩ := h
      exact absurd h throw_ne_ok
    | some size =>
      simp only [hsize, Option.isNone_some, Bool.false_eq_true, ↓reduceIte, pure_eq_ok_iff] at h
      obtain ⟨rfl, -⟩ := h
      exact ⟨size, hsize⟩

/-- The fields of a resolved struct have a checked size. -/
theorem Resolver.checkedActualSize_of_struct {scope : Scope} {m : Machine} {site : Site} {r next : Resolver}
    {fields : List Field} (h : Resolver.struct scope m site r = .ok fields next) :
    ∃ size, checkedActualSize m fields = some size := by
  cases hname : site.name with
  | none =>
    simp only [Resolver.struct, structOr, hname] at h
    exact checkedActualSize_of_structWith h
  | some name =>
    simp only [Resolver.struct, structOr, hname, within] at h
    split at h
    · next t hok =>
      obtain ⟨rfl, -⟩ := by simpa using h
      exact checkedActualSize_of_structWith hok
    · simp at h

/-- Every byte is accounted for. On fields with a checked size the actual size is the reference size with
    the gaps, the tail and the trailing byte; there is no finding exactly where these are all zero, and the
    padding of a report is the sum of what it lists and the trailing byte. Resolved structs have such fields. -/
theorem padding_accounted (m : Machine) :
    (∀ (fields : List Field) (size : Nat), checkedActualSize m fields = some size →
      actualSize m fields = referenceSize m fields + ((fieldSlots m fields).map Slot.paddingBefore).sum +
        tailPadding m fields + trailingByte m fields ∧
      (Finding.ofFields? m fields = none ↔
        (∀ slot ∈ fieldSlots m fields, slot.paddingBefore = 0) ∧ tailPadding m fields = 0 ∧
          trailingByte m fields = 0) ∧
      (∀ f, Finding.ofFields? m fields = some f →
        f = ⟨actualSize m fields, referenceSize m fields⟩ ∧ referenceSize m fields < actualSize m fields) ∧
      ∀ (suggest : Bool) (site : Site) (r : Report), Report.ofSite? m suggest site fields = some r →
        r.finding.padding = (r.gaps.map Prod.snd).sum + r.tail + trailingByte m fields ∧
          0 < r.finding.padding) ∧
    ∀ (scope : Scope) (site : Site) (r next : Resolver) (fields : List Field),
      Resolver.struct scope m site r = .ok fields next → ∃ size, checkedActualSize m fields = some size := by
  refine ⟨?_, fun _ _ _ _ _ h => Resolver.checkedActualSize_of_struct h⟩
  intro fields size h
  have hsum := actualSize_eq_sum h
  have hzero : ((fieldSlots m fields).map Slot.paddingBefore).sum = 0 ↔
      ∀ slot ∈ fieldSlots m fields, slot.paddingBefore = 0 := by
    simp [List.sum_eq_zero_iff_forall_eq_nat]
  have hsome : ∀ f, Finding.ofFields? m fields = some f →
      f = ⟨actualSize m fields, referenceSize m fields⟩ ∧ referenceSize m fields < actualSize m fields := by
    intro f hf
    obtain ⟨hne, rfl⟩ := Finding.ofFields?_eq_some_iff.1 hf
    exact ⟨rfl, by omega⟩
  refine ⟨hsum, ?_, hsome, ?_⟩
  · rw [← hzero]
    simp only [Finding.ofFields?, ite_eq_left_iff, reduceCtorEq, imp_false, Decidable.not_not]
    omega
  · intro suggest site r hr
    obtain ⟨f, hf, rfl⟩ := Option.map_eq_some_iff.1 hr
    obtain ⟨rfl, hlt⟩ := hsome f hf
    simp only [Finding.padding, Report.sum_gapsOf]
    omega

/-- An empty struct behind eight bytes that are aligned behind one. -/
def emptyLast : List Field := [⟨"flag", .scalar .bool⟩, ⟨"count", .scalar .int64⟩, ⟨"mark", .struct []⟩]

theorem padding_accounted_emptyLast :
    checkedActualSize .amd64 emptyLast = some 24 ∧ trailingByte .amd64 emptyLast = 1 ∧
      actualSize .amd64 emptyLast = 9 + 7 + 7 + 1 ∧ referenceSize .amd64 emptyLast < actualSize .amd64 emptyLast := by
  have h : checkedActualSize .amd64 emptyLast = some 24 := by rfl
  have hfinding : Finding.ofFields? .amd64 emptyLast = some ⟨24, 9⟩ := by rfl
  obtain ⟨hsum, -, hsome, -⟩ := (padding_accounted .amd64).1 emptyLast 24 h
  exact ⟨h, rfl, hsum, (hsome _ hfinding).2⟩

end StructPadding
