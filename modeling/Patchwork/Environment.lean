/-!
# Environments

A session frame, and on top of it one frame for each call in progress. A name is looked up in the
innermost frame and then in the session frame, never in the frames of callers in between. The
session frame cannot be dropped.
-/

namespace Patchwork

/-- Names with what they are bound to, each name once, the latest binding first. -/
structure Frame (V : Type) where
  bindings : List (String × V)
  deriving DecidableEq, Repr

namespace Frame

variable {V : Type}

def empty : Frame V :=
  ⟨[]⟩

def get? (frame : Frame V) (name : String) : Option V :=
  frame.bindings.lookup name

def insert (frame : Frame V) (name : String) (v : V) : Frame V :=
  ⟨(name, v) :: frame.bindings.filter fun binding => binding.1 != name⟩

def size (frame : Frame V) : Nat :=
  frame.bindings.length

/-- Of two bindings of one name the later one counts. -/
def ofList (bindings : List (String × V)) : Frame V :=
  bindings.foldl (fun frame binding => frame.insert binding.1 binding.2) empty

theorem get?_insert_self (frame : Frame V) (name : String) (v : V) :
    (frame.insert name v).get? name = some v := by
  simp [insert, get?]

theorem get?_insert_of_ne (frame : Frame V) {name other : String} (v : V) (h : other ≠ name) :
    (frame.insert name v).get? other = frame.get? other := by
  obtain ⟨bindings⟩ := frame
  simp only [insert, get?, List.lookup_cons, beq_eq_false_iff_ne.2 h]
  induction bindings with
  | nil => rfl
  | cons binding rest ih =>
    obtain ⟨key, held⟩ := binding
    by_cases same : key = name
    · subst same
      simpa [List.lookup_cons, beq_eq_false_iff_ne.2 h] using ih
    · by_cases found : other = key
      · simp [same, found]
      · have passed : (other == key) = false := by simpa using found
        simpa [same, List.lookup_cons, passed] using ih

end Frame

structure Environment (V : Type) where
  session : Frame V
  /-- The frames of the calls in progress, innermost first. -/
  calls : List (Frame V)
  deriving DecidableEq, Repr

namespace Environment

variable {V : Type}

def empty : Environment V :=
  ⟨Frame.empty, []⟩

def get? (env : Environment V) (name : String) : Option V :=
  match env.calls with
  | [] => env.session.get? name
  | frame :: _ => (frame.get? name).or (env.session.get? name)

/-- Binds a name in the innermost frame. -/
def define (env : Environment V) (name : String) (v : V) : Environment V :=
  match env.calls with
  | [] => { env with session := env.session.insert name v }
  | frame :: outer => { env with calls := frame.insert name v :: outer }

def push (env : Environment V) (frame : Frame V) : Environment V :=
  { env with calls := frame :: env.calls }

def pop (env : Environment V) : Environment V :=
  { env with calls := env.calls.tail }

/-- The number of frames. -/
def depth (env : Environment V) : Nat :=
  env.calls.length + 1

/-- The number of names bound in the session frame. -/
def size (env : Environment V) : Nat :=
  env.session.size

theorem pop_push (env : Environment V) (frame : Frame V) : (env.push frame).pop = env := rfl

theorem depth_push (env : Environment V) (frame : Frame V) :
    (env.push frame).depth = env.depth + 1 := rfl

theorem depth_define (env : Environment V) (name : String) (v : V) :
    (env.define name v).depth = env.depth := by
  unfold define
  split <;> simp_all [depth]

end Environment

end Patchwork
