/-!
# Kinds of nodes

A kind says what a node is and what follows it. It is generic in how a successor is referred to: by
name in a declaration, by position in a graph.
-/

namespace TrackPlan

/-- What a node is; `ρ` is how it refers to its successors. -/
inductive Kind (ρ : Type) where
  /-- A sensor at an address of its own. -/
  | sensor (address : UInt32) (ahead : ρ)
  /-- A boundary that senses nothing. -/
  | separator (ahead : ρ)
  /-- A turn-out passed towards its two ways. -/
  | branch (number : UInt32) (straight curved : ρ)
  /-- A turn-out passed from its two ways. -/
  | merge (number : UInt32) (ahead : ρ)
  /-- An end of the track, facing in. -/
  | enter (ahead : ρ)
  /-- An end of the track, facing out; nothing follows it. -/
  | exit
  /-- Fills the place of an unused sensor address. -/
  | dummy
  deriving DecidableEq, Repr

/-- The kind of a node without what belongs to the single node. -/
inductive Tag where
  | dummy | sensor | branch | merge | enter | exit | separator
  deriving DecidableEq, Repr

/-- The tag's written name. -/
def Tag.name : Tag → String
  | dummy => "dummy"
  | sensor => "sensor"
  | branch => "branch"
  | merge => "merge"
  | enter => "enter"
  | exit => "exit"
  | separator => "separator"

/-- Every tag. -/
def Tag.all : List Tag := [dummy, sensor, branch, merge, enter, exit, separator]

theorem Tag.mem_all (t : Tag) : t ∈ all := by cases t <;> decide

/-- How many edges leave a node with this tag. -/
def Tag.edgeCount : Tag → Nat
  | dummy | exit => 0
  | branch => 2
  | sensor | merge | enter | separator => 1

/-- How an edge fares when it is travelled the other way: which way of the node that it then leaves
it belongs to. -/
inductive ReverseKind where
  /-- The node is no branch. -/
  | ahead
  /-- The node is a branch, and the edge takes its straight way. -/
  | straight
  /-- The node is a branch, and the edge takes its curved way. -/
  | curved
  deriving DecidableEq, Repr

/-- The written name of a way. -/
def ReverseKind.name : ReverseKind → String
  | ahead => "ahead"
  | straight => "straight"
  | curved => "curved"

/-- Every way. -/
def ReverseKind.all : List ReverseKind := [ahead, straight, curved]

theorem ReverseKind.mem_all (k : ReverseKind) : k ∈ all := by cases k <;> decide

/-- The slot of the way. -/
def ReverseKind.slot : ReverseKind → Nat
  | ahead | straight => 0
  | curved => 1

namespace Kind

variable {ρ σ : Type}

/-- The kind's tag. -/
def tag : Kind ρ → Tag
  | sensor .. => .sensor
  | separator .. => .separator
  | branch .. => .branch
  | merge .. => .merge
  | enter .. => .enter
  | exit => .exit
  | dummy => .dummy

/-- The successors in the order of their slots: a branch has a straight one and a curved one, every
other node at most one. -/
def successors : Kind ρ → List ρ
  | sensor _ ahead | separator ahead | merge _ ahead | enter ahead => [ahead]
  | branch _ straight curved => [straight, curved]
  | exit | dummy => []

theorem length_successors (k : Kind ρ) : k.successors.length = k.tag.edgeCount := by
  cases k <;> rfl

/-- The address of a sensor. -/
def address? : Kind ρ → Option UInt32
  | sensor address _ => some address
  | _ => none

/-- The number of a switch, on its branch and on its merge. -/
def switchNumber? : Kind ρ → Option UInt32
  | branch number .. | merge number _ => some number
  | _ => none

/-- The straight successor of a branch. -/
def straight? : Kind ρ → Option ρ
  | branch _ straight _ => some straight
  | _ => none

/-- Whether the node is a branch. -/
def isBranch : Kind ρ → Bool
  | branch .. => true
  | _ => false

/-- Rewrites every successor by `f`, in slot order. -/
def traverse {m : Type → Type} [Monad m] (f : ρ → m σ) : Kind ρ → m (Kind σ)
  | sensor address ahead => sensor address <$> f ahead
  | separator ahead => separator <$> f ahead
  | branch number straight curved => do
    let straight ← f straight
    let curved ← f curved
    return branch number straight curved
  | merge number ahead => merge number <$> f ahead
  | enter ahead => enter <$> f ahead
  | exit => pure exit
  | dummy => pure dummy

end Kind

end TrackPlan
