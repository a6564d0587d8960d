import Patchwork.Drafting
import Patchwork.Proofs.Agreement
import Patchwork.Proofs.Faulting
import Patchwork.Proofs.Source.Offense
import Patchwork.Proofs.Source.WellFormed
import Patchwork.Scalar.Binary64

/-!
# One limit, asked twice

The limit on depth holds for the atoms of a text and again for the nodes of an evaluation. A sum may
be longer than its text is deep, and a call goes on in a body that stands elsewhere. Without either,
an evaluation goes down the tree and nowhere else, and every node was an atom of the text: what is
read is never too deep to be evaluated.
-/

namespace Patchwork

variable {K : Type}

/-- No sum, product or call is in the expression. -/
structure Expr.Direct (e : Expr) : Prop where
  unjoined : e.Each fun e => ¬e.IsArithmetic
  uncalled : e.Each fun e => ¬e.IsCall

section Evaluation

def Fault.NotTooDeep (fault : Fault K) : Prop :=
  ∀ limit, fault ≠ .tooDeep limit

theorem Scope.promises_require (scope : Scope (Value K)) (x : String) :
    Promises (scope.require x) (Value.Fits fun _ => True) Fault.NotTooDeep := by
  rw [Scope.require]
  cases scope.get? x with
  | none =>
    intro limit same
    cases same
  | some v => cases v <;> trivial

/-- A direct expression has levels enough for itself and so for all that it evaluates. -/
theorem admission_direct : Admission (K := K) Fault.NotTooDeep (fun _ => True)
    fun levels _ e => e.Direct ∧ e.height ≤ levels where
  own := by
    rintro fault own limit rfl
    exact own
  spent h := (Nat.not_lt_of_le h.2 (Expr.height_pos _)).elim
  part h member := by
    refine ⟨⟨h.1.unjoined.inside member, h.1.uncalled.inside member⟩, ?_⟩
    exact (Expr.height_le_succ_iff h.1.unjoined.here).1 h.2 _ member
  name _ := Scope.promises_require _ _
  callee _ := Scope.promises_require _ _
  body h := (h.1.uncalled.here trivial).elim

variable [Scalar K]

namespace Session

variable {s : Session K}

theorem promises_direct (idle : s.depth = 0) {e : Expr} (direct : e.Direct)
    (within : e.height ≤ s.limits.maxDepth) :
    Promises (s.meaning e) (Value.Fits fun _ => True) Fault.NotTooDeep := by
  rw [Session.meaning, idle]
  exact admission_direct.promises_meaning s.limits ⟨direct, within⟩

/-- One definition, in a session that is in no evaluation. -/
theorem promises_extend {limits : Limits} (same : s.limits = limits ∧ s.depth = 0) {d : Definition}
    (direct : d.content.Direct) (within : d.content.height ≤ limits.maxDepth) :
    Promises (s.extend d) (fun t => t.limits = limits ∧ t.depth = 0) Fault.NotTooDeep := by
  obtain ⟨rfl, idle⟩ := same
  cases d with
  | declared kind x e =>
    have value : Promises (s.value (.declared kind x e)) (Value.Fits fun _ => True)
        Fault.NotTooDeep := by
      refine (promises_direct idle direct within).bind fun v fits => ?_
      exact (promises_check kind x fits).mono (fun _ => id) admission_direct.own
    exact value.bind fun v _ => ⟨rfl, idle⟩
  | assigned x e =>
    exact (promises_direct idle direct within).bind fun v _ => ⟨rfl, idle⟩
  | function f parameters body => exact ⟨rfl, idle⟩

end Session

/-- No higher than the limit, a direct program is never too deep. -/
theorem Program.promises_design {p : Program} {limits : Limits}
    (direct : ∀ e ∈ p.contents, e.Direct) (within : p.height ≤ limits.maxDepth) :
    Promises (p.design limits : Except (Fault K) (Design K)) (fun _ => True) Fault.NotTooDeep := by
  obtain ⟨definitions, goal⟩ := Program.forall_mem_contents_iff.1 direct
  obtain ⟨heights, height⟩ := Program.forall_mem_contents_iff.1 (Expr.heightAll_le_iff.1 within)
  rw [p.design_eq_outcome, Session.outcome]
  have extended : Promises (p.definitions.foldlM Session.extend (Session.new (K := K) limits))
      (fun t => t.limits = limits ∧ t.depth = 0) Fault.NotTooDeep := by
    refine promises_foldlM (fun s d member same => ?_) ⟨rfl, rfl⟩
    exact Session.promises_extend same (definitions d member) (heights d member)
  refine extended.bind ?_
  rintro t ⟨rfl, idle⟩
  refine (Session.promises_direct idle goal height).bind fun v _ => ?_
  exact (owned_toGoal v).mono (fun _ => id) admission_direct.own

end Evaluation

section Text

/-- Where no token joins operands, none are joined in the tree. -/
theorem inherited_unjoined :
    Grammar.Inherited (fun t => t.kind ≠ .plus ∧ t.kind ≠ .star) (fun _ => True)
      fun _ e => e.Each fun e => ¬e.IsArithmetic where
  bound _ _ _ := trivial
  number _ := .leaf id rfl
  color _ _ := .leaf id rfl
  name _ := .leaf id rfl
  call _ each := .intro id each
  arithmetic good joins _ _ := (joins.elim good.1 good.2).elim
  group h := h
  rect width height color := .intro id (by simp [Expr.parts, width, height, color])
  strip _ each := .intro id each
  overlay _ _ _ each := .intro id each
  rot := by
    intro levels angle target first second
    have turn : (Reading.asAngle angle).Each fun e => ¬e.IsArithmetic := by
      cases angle with
      | number n => exact .leaf id rfl
      | _ => exact first
    exact .intro id (by simp [Expr.parts, turn, second])
  rep count target := .intro id (by simp [Expr.parts, count, target])

/-- The text holds no sign of a sum or a product, and no call: whatever the limit, what is read has
none. -/
structure IsDirect (text : String) : Prop where
  signs : ∀ tokens, scan text = .ok tokens → ∀ t ∈ tokens, t.kind ≠ .plus ∧ t.kind ≠ .star
  calls : ∀ limit p, Program.ofText limit text = .ok p →
    ∀ e ∈ p.contents, e.Each fun e => ¬e.IsCall

variable {text : String} {limit larger : Nat} {p : Program}

theorem IsDirect.contents (direct : IsDirect text) (read : Program.ofText limit text = .ok p) :
    ∀ e ∈ p.contents, e.Direct := by
  obtain ⟨tokens, scanned, derives⟩ := Program.exists_derives_of_ofText read
  obtain ⟨-, unjoined⟩ := inherited_unjoined.of_derives derives (direct.signs tokens scanned)
  exact fun e member => ⟨unjoined e member, direct.calls limit p read e member⟩

namespace Program

theorem height_le_of_ofText (read : ofText limit text = .ok p) : p.height ≤ limit := by
  obtain ⟨tokens, scanned, derives⟩ := exists_derives_of_ofText read
  exact (spellable_of_derives derives (isSpelled_of_scan scanned)).2

/-- What another limit lets through is refused for its depth, at one of its tokens. -/
theorem refused_of_read (read : ofText larger text = .ok p) (unread : ofText limit text ≠ .ok p) :
    ∃ tokens, ∃ t ∈ tokens, scan text = .ok tokens ∧
      ofText limit text = .error ⟨.tooDeep limit, t.position⟩ := by
  obtain ⟨tokens, scanned, derives⟩ := exists_derives_of_ofText read
  have read := ofTokens_eq_ok_iff.2 derives
  rw [ofText_of_scan scanned] at unread ⊢
  have less : limit ≤ larger := by
    by_contra more
    exact unread (ofTokens_kept (Nat.le_of_not_le more) read)
  rcases ofTokens_cutBy_own less tokens with same | ⟨fault, failed, deep⟩
  · exact (unread (same.trans read)).elim
  · obtain ⟨cause, rest, ended, rfl⟩ := exists_ends_of_fault failed
    have some : tokens ≠ [] := by
      rintro rfl
      cases read
    obtain ⟨i, t, -, found, placed⟩ := behind_viable_of_failure ended some
    have member : t ∈ tokens := by
      rcases found with next | ⟨-, last⟩
      · exact List.mem_of_getElem? next
      · exact List.mem_of_getLast? last
    refine ⟨tokens, t, member, scanned, ?_⟩
    rw [failed, ← placed, ← deep]

end Program

section Agreement

variable [Scalar K] (limits : Limits)

theorem IsDirect.design_ne_tooDeep (direct : IsDirect text)
    (read : Program.ofText limit text = .ok p) (within : p.height ≤ limits.maxDepth) (n : Nat) :
    (p.design limits : Except (Fault K) (Design K)) ≠ .error (.tooDeep n) := by
  intro failed
  have promised := Program.promises_design (K := K) (direct.contents read) within
  rw [failed] at promised
  exact promised n rfl

/-- A text without sums, products and calls is never too deep to be evaluated. If its tree is too
deep, or its evaluation would be, the text is refused as nested too deep, at one of its tokens. -/
theorem IsDirect.depth_agrees (direct : IsDirect text) :
    (∀ n, designOfText (K := K) limits text ≠ .error (.failed (.tooDeep n))) ∧
    ∀ larger p, Program.ofText larger text = .ok p →
      (limits.maxDepth < p.height ∨
        ∃ n, (p.design limits : Except (Fault K) (Design K)) = .error (.tooDeep n)) →
      ∃ tokens, ∃ t ∈ tokens, scan text = .ok tokens ∧
        designOfText (K := K) limits text =
          .error (.malformed ⟨.tooDeep limits.maxDepth, t.position⟩) := by
  constructor
  · intro n
    rw [designOfText]
    cases read : Program.ofText limits.maxDepth text with
    | error fault => exact nofun
    | ok p =>
      have within := Program.height_le_of_ofText read
      have shallow := direct.design_ne_tooDeep (K := K) limits read within n
      dsimp only
      generalize p.design (K := K) limits = outcome at shallow
      cases outcome with
      | ok d => exact nofun
      | error fault =>
        rintro ⟨⟩
        exact shallow rfl
  · intro larger p read deep
    have high : limits.maxDepth < p.height := by
      rcases deep with high | ⟨n, failed⟩
      · exact high
      · by_contra low
        exact direct.design_ne_tooDeep limits read (Nat.le_of_not_lt low) n failed
    have unread : Program.ofText limits.maxDepth text ≠ .ok p :=
      fun h => Nat.not_lt_of_le (Program.height_le_of_ofText h) high
    obtain ⟨tokens, t, member, scanned, refused⟩ := Program.refused_of_read read unread
    refine ⟨tokens, t, member, scanned, ?_⟩
    rw [designOfText, refused]

end Agreement

/-- `rot x rot y z`, which is three levels deep. -/
def turnedTwice : Program :=
  ⟨[], .rot (.name "x") (.rot (.name "y") (.name "z"))⟩

def turnedTwiceTokens : List Token :=
  [⟨.rot, "rot", ⟨1, 1⟩⟩, ⟨.identifier, "x", ⟨1, 5⟩⟩, ⟨.rot, "rot", ⟨1, 7⟩⟩,
    ⟨.identifier, "y", ⟨1, 11⟩⟩, ⟨.identifier, "z", ⟨1, 13⟩⟩]

theorem turnedTwice_depth_agrees : IsDirect "rot x rot y z" ∧
    Program.ofText 3 "rot x rot y z" = .ok turnedTwice ∧ 2 < turnedTwice.height ∧
    ∃ tokens, ∃ t ∈ tokens, scan "rot x rot y z" = .ok tokens ∧
      designOfText (K := Float) ⟨2, 8⟩ "rot x rot y z" =
        .error (.malformed ⟨.tooDeep 2, t.position⟩) := by
  have scanned : scan "rot x rot y z" = .ok turnedTwiceTokens := by with_unfolding_all rfl
  have read : Program.ofText 3 "rot x rot y z" = .ok turnedTwice := by
    rw [Program.ofText_of_scan scanned]
    rfl
  have high : 2 < turnedTwice.height := by decide
  have direct : IsDirect "rot x rot y z" := by
    constructor
    · intro tokens scanned'
      cases scanned.symm.trans scanned'
      decide
    · intro limit p read'
      cases Program.ofText_unique read read'
      have name (x : String) : (Expr.name x).Each fun e => ¬e.IsCall := .leaf id rfl
      have turn {a b : Expr} (ha : a.Each fun e => ¬e.IsCall) (hb : b.Each fun e => ¬e.IsCall) :
          (Expr.rot a b).Each fun e => ¬e.IsCall := .intro id (by simp [Expr.parts, ha, hb])
      exact List.forall_mem_singleton.2 (turn (name "x") (turn (name "y") (name "z")))
  exact ⟨direct, read, high, (direct.depth_agrees (K := Float) ⟨2, 8⟩).2 3 _ read (Or.inl high)⟩

end Text

end Patchwork
