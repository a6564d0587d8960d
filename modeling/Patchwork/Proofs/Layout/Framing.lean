import Patchwork.Proofs.Layout.Nesting

/-!
# Patches in the place of designs

A patch at the origin and the design that it frames can be exchanged for each other wherever a value
is built of values. Turned, the one is still a patch and the other a design, but the patch still
lies at the origin and the design is still the one that it frames.
-/

namespace Patchwork

/-- The same value, or the design in the place of a patch that stands for it. -/
inductive Value.Framed : Value Rat → Value Rat → Prop
  | same (v : Value Rat) : Framed v v
  | design {v : Value Rat} {d : Design Rat} : v.StandsFor d → Framed v (.design d)

section Operators

variable {v v' : Value Rat}

theorem toDesign?_of_framed (h : v.Framed v') : v.toDesign? = v'.toDesign? := by
  cases h with
  | same => rfl
  | design stands => exact toDesign?_of_standsFor stands

theorem element_of_framed (layout : Layout) (h : v.Framed v') :
    layout.element v = layout.element v' := by
  cases h with
  | same => rfl
  | design stands => exact element_of_standsFor layout stands

theorem compose_of_framed (layout : Layout) {vs vs' : List (Value Rat)}
    (h : List.Forall₂ Value.Framed vs vs') : layout.compose vs = layout.compose vs' := by
  cases h with
  | nil => rfl
  | @cons v v' vs vs' first others =>
    have pushed (base : Design Rat) :
        vs.foldlM layout.push base = vs'.foldlM layout.push base := by
      induction others generalizing base with
      | nil => rfl
      | cons next _ ih =>
        rw [List.foldlM_cons, List.foldlM_cons, Layout.push, Layout.push,
          element_of_framed layout next]
        exact congrArg _ (funext ih)
    rw [Layout.compose, Layout.compose, element_of_framed layout first]
    exact congrArg _ (funext pushed)

theorem turned_of_framed (t : Turn) (h : v.Framed v') :
    Agrees Value.Framed (v.turned t) (v'.turned t) := by
  cases h with
  | same =>
    cases v.turned t with
    | ok w => exact .ok (.same w)
    | error fault => exact .error fault
  | design stands =>
    obtain ⟨w, turned, stands⟩ := turned_of_standsFor t stands
    rw [turned]
    exact .ok (.design stands)

theorem tiled_of_framed (count : Nat) (h : v.Framed v') : v.tiled count = v'.tiled count := by
  cases h with
  | same => rfl
  | @design d stands =>
    by_cases some : count = 0
    · subst some
      rfl
    · rw [tiled_of_standsFor some stands, tiled_of_standsFor some (.design d)]

end Operators

namespace Nesting

/-- The same nesting, in which some patches at the origin have given way to the designs that they
frame. -/
inductive Reframed : Nesting Rat → Nesting Rat → Prop
  | value {v v' : Value Rat} : v.Framed v' → Reframed (.value v) (.value v')
  | arranged (layout : Layout) {items items' : List (Nesting Rat)} :
      items.length = items'.length → (∀ pair ∈ items.zip items', Reframed pair.1 pair.2) →
      Reframed (.arranged layout items) (.arranged layout items')
  | turned (t : Turn) {target target' : Nesting Rat} :
      Reframed target target' → Reframed (.turned t target) (.turned t target')
  | tiled (count : Nat) {target target' : Nesting Rat} :
      Reframed target target' → Reframed (.tiled count target) (.tiled count target')

variable {n n' : Nesting Rat}

theorem agrees_buildAll {items items' : List (Nesting Rat)}
    (h : List.Forall₂ (fun n n' => Agrees Value.Framed n.build n'.build) items items') :
    Agrees (List.Forall₂ Value.Framed) (buildAll items) (buildAll items') := by
  induction h with
  | nil => exact .ok .nil
  | cons first _ ih =>
    refine first.bind fun v v' framed => ih.bind fun vs vs' others => ?_
    exact .ok (.cons framed others)

/-- Both fail alike, or what they come to can be exchanged for each other again. -/
theorem Reframed.agrees_build (h : n.Reframed n') : Agrees Value.Framed n.build n'.build := by
  induction h with
  | value framed => exact .ok framed
  | arranged layout enough _ ih =>
    have each := List.forall₂_iff_zip.2 ⟨enough, fun member => ih _ member⟩
    refine (agrees_buildAll each).bind fun vs vs' framed => ?_
    rw [compose_of_framed layout framed]
    refine (agrees_self _).bind ?_
    rintro d _ rfl
    exact .ok (.same _)
  | turned t _ ih => exact ih.bind fun v v' framed => turned_of_framed t framed
  | tiled count _ ih =>
    refine ih.bind fun v v' framed => ?_
    rw [tiled_of_framed count framed]
    refine (agrees_self _).bind ?_
    rintro d _ rfl
    exact .ok (.same _)

/-- Whatever is built of values by layouts, turns and copies, to any depth: where patches at the
origin give way to the designs that they frame, it fails as before, or else the same design is
drawn. -/
theorem patches_as_designs (h : n.Reframed n') :
    (∃ fault, n.build = .error fault ∧ n'.build = .error fault) ∨
      ∃ v v', n.build = .ok v ∧ n'.build = .ok v' ∧ v.toDesign? = v'.toDesign? := by
  have agrees := h.agrees_build
  generalize n.build = outcome, n'.build = outcome' at agrees
  cases agrees with
  | error fault => exact Or.inl ⟨fault, rfl, rfl⟩
  | ok framed => exact Or.inr ⟨_, _, rfl, rfl, toDesign?_of_framed framed⟩

section Medallion

/-- Two patches, turned and copied, are laid over each other; a third one lies elsewhere. -/
def medallion (plate band : Value Rat) : Nesting Rat :=
  .arranged (.overlay .center)
    [.turned .quarter (.value plate), .tiled 2 (.turned .threeQuarter (.value band)),
      .value (.patch ⟨1, 0, 2, 2, .dyed .pink⟩)]

def plate : Patch Rat :=
  .unplaced 4 6 (.dyed .blue)

def band : Patch Rat :=
  .unplaced 1 2 (.dyed .yellow)

def medallionDesign : Design Rat :=
  ⟨6, 4, [⟨0, 0, 6, 4, .dyed .blue⟩, ⟨1, 3 / 2, 2, 1, .dyed .yellow⟩,
    ⟨3, 3 / 2, 2, 1, .dyed .yellow⟩, ⟨2, 1, 2, 2, .dyed .pink⟩]⟩

/-- The turned patch is a patch on the one side and a design on the other; the copies need the
design in the end. -/
theorem medallion_of_designs :
    (medallion (.patch plate) (.patch band)).Reframed
        (medallion (.design (.ofPatch plate)) (.design (.ofPatch band))) ∧
      ∃ v v', (medallion (.patch plate) (.patch band)).build = .ok v ∧
        (medallion (.design (.ofPatch plate)) (.design (.ofPatch band))).build = .ok v' ∧
        v.toDesign? = some medallionDesign ∧ v'.toDesign? = some medallionDesign := by
  have framed (p : Patch Rat) (x : p.x = 0) (y : p.y = 0) :
      Reframed (.value (.patch p)) (.value (.design (.ofPatch p))) :=
    .value (.design (.patch p x y))
  have reframed : (medallion (.patch plate) (.patch band)).Reframed
      (medallion (.design (.ofPatch plate)) (.design (.ofPatch band))) := by
    refine .arranged _ rfl ?_
    simp only [List.zip_cons_cons, List.zip_nil_right, List.forall_mem_cons]
    exact ⟨.turned _ (framed plate rfl rfl), .tiled _ (.turned _ (framed band rfl rfl)),
      .value (.same _), nofun⟩
  have built : (medallion (.patch plate) (.patch band)).build = .ok (.design medallionDesign) := by
    with_unfolding_all rfl
  refine ⟨reframed, ?_⟩
  rcases patches_as_designs reframed with ⟨fault, failed, -⟩ | ⟨v, v', found, found', same⟩
  · cases built.symm.trans failed
  · cases built.symm.trans found
    exact ⟨_, v', built, found', rfl, same.symm⟩

end Medallion

end Nesting

end Patchwork
