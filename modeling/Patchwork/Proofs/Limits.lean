import Patchwork.Drafting
import Patchwork.Proofs.Binary64.Counting
import Patchwork.Proofs.Binding
import Patchwork.Proofs.Cutoff

/-!
# Limits only cut off

Under lower limits a text has the same design or the same failure, or it fails at a limit. The two
evaluations run side by side: they ask the same questions in the same order, and only the answers
to "deep enough?" and "few enough?" can differ, where the lower limit then ends the evaluation.
-/

namespace Patchwork

variable {K : Type}

/-- No limit is lower. -/
structure Limits.Below (limits larger : Limits) : Prop where
  depth : limits.maxDepth ≤ larger.maxDepth
  patches : limits.maxPatches ≤ larger.maxPatches

namespace Fault

def IsLimit (fault : Fault K) : Prop :=
  fault.category = .resourceLimit

theorem isLimit_tooManyPatches (limit : Nat) : (tooManyPatches limit : Fault K).IsLimit := rfl

theorem isLimit_tooDeep (limit : Nat) : (tooDeep limit : Fault K).IsLimit := rfl

end Fault

namespace Limits.Below

variable {limits larger : Limits} (below : limits.Below larger)

include below

theorem checkPatches_cutBy (count : Nat) :
    CutBy Fault.IsLimit (limits.checkPatches (K := K) count) (larger.checkPatches count) :=
  cutBy_check (Fault.isLimit_tooManyPatches _) (Nat.lt_of_le_of_lt below.patches) ()

theorem checkCopies_cutBy [Scalar K] [Scalar.Counting K] (copies : K) (patches : Nat) :
    CutBy Fault.IsLimit (limits.checkCopies copies patches)
      (larger.checkCopies copies patches) :=
  cutBy_check (Fault.isLimit_tooManyPatches _) (Scalar.Counting.lt_of_le below.patches) ()

end Limits.Below

namespace Meaning

/-!
One node, where the expressions below it are cut at most.
-/

variable {limits larger : Limits}
  {sub full : Scope (Value K) → Expr → Except (Fault K) (Value K)}
  (cut : ∀ scope e, CutBy Fault.IsLimit (sub scope e) (full scope e))
  (scope : Scope (Value K))

include cut

theorem number_cutBy (place : Place) (e : Expr) :
    CutBy Fault.IsLimit (number sub scope place e) (number full scope place e) :=
  cutBy_bind (cut scope e) fun _ => cutBy_rfl _

theorem call_cutBy (f : String) (arguments : List Expr) :
    CutBy Fault.IsLimit (call sub scope f arguments) (call full scope f arguments) := by
  refine cutBy_bind (cutBy_rfl _) fun v => cutBy_bind (cutBy_rfl _) fun fn => ?_
  refine cutBy_bind (cutBy_rfl _) fun _ => cutBy_bind (cutBy_foldlM ?_ _ _) fun frame => ?_
  · exact fun frame binding => cutBy_bind (cut scope binding.2) fun _ => cutBy_rfl _
  · exact cut (scope.inCall frame) fn.body

variable [Scalar K]

theorem arithmetic_cutBy (op : Operator) (left right : Expr) :
    CutBy Fault.IsLimit (arithmetic sub scope op left right)
      (arithmetic full scope op left right) := by
  refine cutBy_bind (number_cutBy cut scope _ left) fun a => ?_
  exact cutBy_bind (number_cutBy cut scope _ right) fun b => cutBy_rfl _

theorem rect_cutBy (width height color : Expr) :
    CutBy Fault.IsLimit (rect sub scope width height color)
      (rect full scope width height color) := by
  refine cutBy_bind (number_cutBy cut scope _ width) fun w => ?_
  refine cutBy_bind (number_cutBy cut scope _ height) fun h => ?_
  refine cutBy_bind (cutBy_rfl _) fun _ => ?_
  exact cutBy_bind (cut scope color) fun _ => cutBy_rfl _

theorem rot_cutBy (angle target : Expr) :
    CutBy Fault.IsLimit (rot sub scope angle target) (rot full scope angle target) := by
  refine cutBy_bind (cut scope angle) fun v => cutBy_bind (cutBy_rfl _) fun t => ?_
  exact cutBy_bind (cut scope target) fun _ => cutBy_rfl _

variable (below : limits.Below larger)

include below

theorem push_cutBy (layout : Layout) (base : Design K) (item : Expr) :
    CutBy Fault.IsLimit (push limits sub scope layout base item)
      (push larger full scope layout base item) := by
  refine cutBy_bind (cut scope item) fun v => cutBy_bind (cutBy_rfl _) fun joined => ?_
  exact cutBy_bind (below.checkPatches_cutBy _) fun _ => cutBy_rfl _

theorem arrange_cutBy (layout : Layout) (items : List Expr) :
    CutBy Fault.IsLimit (arrange limits sub scope layout items)
      (arrange larger full scope layout items) := by
  cases items with
  | nil => exact cutBy_rfl _
  | cons item items =>
    refine cutBy_bind (cut scope item) fun v => cutBy_bind (cutBy_rfl _) fun first => ?_
    refine cutBy_bind (cutBy_foldlM ?_ items first) fun d => cutBy_rfl _
    exact push_cutBy cut scope below layout

theorem overlay_cutBy (anchor : String) (items : List Expr) :
    CutBy Fault.IsLimit (overlay limits sub scope anchor items)
      (overlay larger full scope anchor items) :=
  cutBy_bind (cutBy_rfl _) fun a => arrange_cutBy cut scope below (.overlay a) items

theorem rep_cutBy [Scalar.Counting K] (count target : Expr) :
    CutBy Fault.IsLimit (rep limits sub scope count target)
      (rep larger full scope count target) := by
  refine cutBy_bind (number_cutBy cut scope _ count) fun n => ?_
  refine cutBy_bind (cutBy_rfl _) fun tiles => cutBy_bind (cut scope target) fun v => ?_
  exact cutBy_bind (below.checkCopies_cutBy _ _) fun _ => cutBy_rfl _

theorem node_cutBy [Scalar.Counting K] (e : Expr) :
    CutBy Fault.IsLimit (node limits sub scope e) (node larger full scope e) := by
  cases e with
  | number n => exact cutBy_rfl _
  | angle degrees => exact cutBy_rfl _
  | color text => exact cutBy_rfl _
  | name x => exact cutBy_rfl _
  | call f arguments => exact call_cutBy cut scope f arguments
  | arithmetic op left right => exact arithmetic_cutBy cut scope op left right
  | rect width height color => exact rect_cutBy cut scope width height color
  | strip axis items => exact arrange_cutBy cut scope below (.strip axis) items
  | overlay anchor items => exact overlay_cutBy cut scope below anchor items
  | rot angle target => exact rot_cutBy cut scope angle target
  | rep count target => exact rep_cutBy cut scope below count target

end Meaning

namespace Session

/-- The same session under limits of which none is lower. -/
structure Below (s larger : Session K) : Prop where
  limits : s.limits.Below larger.limits
  depth : s.depth = larger.depth
  environment : s.environment = larger.environment

theorem Below.define {s larger : Session K} (below : s.Below larger) (name : String)
    (v : Value K) : (s.define name v).Below (larger.define name v) where
  limits := below.limits
  depth := below.depth
  environment := by
    change s.environment.define name v = larger.environment.define name v
    rw [below.environment]

end Session

variable [Scalar K] [Scalar.Counting K]

theorem Expr.meaning_cutBy {limits larger : Limits} (below : limits.Below larger)
    {levels more : Nat} (h : levels ≤ more) (scope : Scope (Value K)) (e : Expr) :
    CutBy Fault.IsLimit (e.meaning limits levels scope) (e.meaning larger more scope) := by
  induction levels generalizing more scope e with
  | zero => exact cutBy_error (Fault.isLimit_tooDeep _) _
  | succ levels ih =>
    cases more with
    | zero => omega
    | succ more => exact Meaning.node_cutBy (fun scope e => ih (by omega) scope e) scope below e

namespace Session

variable {s larger : Session K}

theorem meaning_cutBy (below : s.Below larger) (e : Expr) :
    CutBy Fault.IsLimit (s.meaning e) (larger.meaning e) := by
  have levels : s.limits.maxDepth - s.depth ≤ larger.limits.maxDepth - larger.depth := by
    have := below.limits.depth
    have := below.depth
    omega
  rw [meaning, meaning, ← below.environment]
  exact Expr.meaning_cutBy below.limits levels _ e

theorem value_cutBy (below : s.Below larger) (d : Definition) :
    CutBy Fault.IsLimit (s.value d) (larger.value d) := by
  cases d with
  | declared kind name e => exact cutBy_bind (meaning_cutBy below e) fun _ => cutBy_rfl _
  | assigned name e => exact meaning_cutBy below e
  | function name parameters body => exact cutBy_rfl _

/-- Either a limit cuts the binding off, or it ends in the same way and in the same session. -/
theorem bindAll_cut (below : s.Below larger) (ds : List Definition) :
    (∃ fault, (s.bindAll ds).1 = .error fault ∧ fault.IsLimit) ∨
      ((s.bindAll ds).1 = (larger.bindAll ds).1 ∧
        (s.bindAll ds).2.Below (larger.bindAll ds).2) := by
  induction ds generalizing s larger with
  | nil => exact Or.inr ⟨rfl, below⟩
  | cons d ds ih =>
    rcases value_cutBy below d with same | ⟨fault, cut, limit⟩
    · cases h : larger.value d with
      | error fault =>
        rw [bindAll, bindAll, same, h]
        exact Or.inr ⟨rfl, below⟩
      | ok v =>
        simp only [bindAll, same, h]
        exact ih (below.define d.name v)
    · simp only [bindAll, cut]
      exact Or.inl ⟨fault, rfl, limit⟩

end Session

theorem Program.design_cutBy {limits larger : Limits} (below : limits.Below larger)
    (program : Program) :
    CutBy Fault.IsLimit (program.design (K := K) limits) (program.design larger) := by
  have fresh : (Session.new limits : Session K).Below (Session.new larger) := ⟨below, rfl, rfl⟩
  rw [design, design, run_run, run_run]
  rcases Session.bindAll_cut fresh program.definitions with ⟨fault, cut, limit⟩ | ⟨same, after⟩
  · generalize (Session.new limits : Session K).bindAll program.definitions = r at cut
    obtain ⟨outcome, s⟩ := r
    cases cut
    exact cutBy_error limit _
  · generalize (Session.new limits : Session K).bindAll program.definitions = r at same after
    generalize (Session.new larger : Session K).bindAll program.definitions = r' at same after
    obtain ⟨outcome, s⟩ := r
    obtain ⟨outcome', s'⟩ := r'
    cases same
    cases outcome with
    | error fault => exact cutBy_rfl _
    | ok u => exact cutBy_bind (Session.meaning_cutBy after _) fun _ => cutBy_rfl _

namespace Failure

/-- A failure that a higher limit might spare. -/
def IsLimit : Failure K → Prop
  | malformed fault => fault.IsTooDeep
  | failed fault => fault.IsLimit

end Failure

theorem designOfText_cutBy {limits larger : Limits} (below : limits.Below larger)
    (text : String) :
    CutBy Failure.IsLimit (designOfText (K := K) limits text) (designOfText larger text) := by
  rw [designOfText, designOfText]
  rcases Program.ofText_cutBy below.depth text with same | ⟨fault, cut, deep⟩
  · rw [same]
    cases Program.ofText larger.maxDepth text with
    | error fault => exact cutBy_rfl _
    | ok program =>
      dsimp only
      rcases Program.design_cutBy (K := K) below program with same | ⟨fault, cut, limit⟩
      · rw [same]
        exact cutBy_rfl _
      · rw [cut]
        exact Or.inr ⟨_, rfl, limit⟩
  · rw [cut]
    exact Or.inr ⟨_, rfl, deep⟩

/-- A design, or a failure that is not at a limit, stays the same when limits are raised. -/
theorem designOfText_kept {limits larger : Limits} (below : limits.Below larger) (text : String)
    (settled : ∀ failure : Failure K, designOfText limits text = .error failure →
      ¬failure.IsLimit) :
    designOfText (K := K) larger text = designOfText limits text :=
  eq_of_cutBy (designOfText_cutBy below text) settled

section Doubles

/-- In double precision a text has the same outcome under lower limits, or fails at one of them. -/
theorem lower_limits_only_cut_off {limits larger : Limits}
    (depth : limits.maxDepth ≤ larger.maxDepth) (patches : limits.maxPatches ≤ larger.maxPatches)
    (text : String) :
    designOfText (K := Float) limits text = designOfText larger text ∨
      ∃ failure : Failure Float, designOfText limits text = .error failure ∧ failure.IsLimit :=
  designOfText_cutBy ⟨depth, patches⟩ text

/-- Four levels and two patches, against the limits that are standard. -/
theorem tight_limits_only_cut_off :
    4 ≤ Limits.standard.maxDepth ∧ 2 ≤ Limits.standard.maxPatches ∧
      (designOfText (K := Float) ⟨4, 2⟩ "rep(3, rect(1, 2, red))" =
          designOfText Limits.standard "rep(3, rect(1, 2, red))" ∨
        ∃ failure : Failure Float,
          designOfText ⟨4, 2⟩ "rep(3, rect(1, 2, red))" = .error failure ∧ failure.IsLimit) :=
  ⟨by decide, by decide, lower_limits_only_cut_off (by decide) (by decide) _⟩

end Doubles

end Patchwork
