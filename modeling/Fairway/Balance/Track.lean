import Fairway.Balance.Call

namespace Fairway

/-- The rotation state of one weight of a node. `efficient` moves with the outcomes of calls, between
one and twice the configured weight. -/
structure Track where
  configured : Nat
  current : Int
  efficient : Nat
  deriving DecidableEq

namespace Track

/-- Weights stay in 32 bits. -/
def weightCap : Nat := Nat.pow 2 32 - 1

/-- A configured weight of zero counts as one. -/
def normalise (weight : UInt32) : Nat := max weight.toNat 1

def ofWeight (weight : UInt32) : Track :=
  ⟨normalise weight, normalise weight, normalise weight⟩

def isConfiguredAs (t : Track) (weight : UInt32) : Bool := t.configured == normalise weight

/-- The most that feedback can raise the efficient weight to. -/
def ceiling (t : Track) : Nat := min (2 * t.configured) weightCap

def advance (t : Track) : Track := { t with current := t.current + t.efficient }

def settle (total : Int) (t : Track) : Track := { t with current := t.current - total }

/-- A success raises the efficient weight by one, a quarantine drops it to one, any other failure
lowers it by one. -/
def record (outcome : Outcome) (t : Track) : Track :=
  { t with
    efficient := match outcome with
      | .success => min (min (t.efficient + 1) weightCap) t.ceiling
      | .quarantine => 1
      | .degrade => max (t.efficient - 1) 1 }

/-- The sum of the efficient weights, which every pick takes from the track it selects. -/
def totalEfficient (tracks : List Track) : Int :=
  tracks.foldr (fun t sum => t.efficient + sum) 0

theorem one_le_normalise (weight : UInt32) : 1 ≤ normalise weight := Nat.le_max_right _ _

@[simp] theorem configured_advance (t : Track) : t.advance.configured = t.configured := rfl

@[simp] theorem configured_settle (total : Int) (t : Track) :
    (t.settle total).configured = t.configured := rfl

@[simp] theorem configured_record (outcome : Outcome) (t : Track) :
    (t.record outcome).configured = t.configured := rfl

@[simp] theorem efficient_advance (t : Track) : t.advance.efficient = t.efficient := rfl

@[simp] theorem efficient_settle (total : Int) (t : Track) :
    (t.settle total).efficient = t.efficient := rfl

@[simp] theorem current_record (outcome : Outcome) (t : Track) :
    (t.record outcome).current = t.current := rfl

end Track

/-- The key of the first entry with the strictly greatest value. -/
def leader {ι : Type} : List (ι × Int) → Option ι
  | [] => none
  | (i, v) :: rest => some (rest.foldl (fun best next => if best.2 < next.2 then next else best) (i, v)).1

end Fairway
