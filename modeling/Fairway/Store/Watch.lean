import Fairway.Store.Basic

namespace Fairway

/-- What lies between a loop and its consumer. The loop holds one item in its hand until the slot is
free, and the consumer receives from the slot. A loop that is told to stop, or whose consumer has gone
when it has something to hand over, loses what is in its hand; what is in the slot can still be
received. -/
structure Outlet (α : Type) where
  hand : Option α := none
  slot : Option α := none
  attached : Bool := true
  running : Bool := true
  told : Bool := false
  deriving DecidableEq

inductive KeyFilter where
  | single (key : String)
  | under (root : String)
  deriving DecidableEq

/-- A loop that reads the log of a store from `cursor` on. -/
structure Watch where
  filter : KeyFilter
  cursor : Nat
  outlet : Outlet Event := {}
  deriving DecidableEq

/-- A loop that turns the events of a watch of its own into items for its consumer. -/
structure Relay (β : Type) where
  source : Watch
  outlet : Outlet β := {}
  deriving DecidableEq

namespace Outlet

variable {α : Type}

def stop (o : Outlet α) : Outlet α := { o with running := false, hand := none }

def tell (o : Outlet α) : Outlet α := { o with told := true }

/-- The consumer goes, and takes what it has not received with it. -/
def detach (o : Outlet α) : Outlet α := { o with attached := false, slot := none }

def ended (o : Outlet α) : Bool := !o.running && o.slot.isNone

def waiting (o : Outlet α) : Bool := o.running && !o.told && o.hand.isNone

/-- The loop has something in hand that need not wait any longer. -/
def unblocked (o : Outlet α) : Bool := o.hand.isSome && (o.slot.isNone || !o.attached)

/-- Whether the loop can proceed without anything new to hand over. -/
def canProceed (o : Outlet α) : Bool := o.running && (o.told || o.unblocked)

/-- A stop comes before a delivery. -/
def proceed (o : Outlet α) : Outlet α :=
  if o.told || !o.attached then o.stop
  else { o with slot := o.hand, hand := none }

def receive (o : Outlet α) : Option α × Outlet α := (o.slot, { o with slot := none })

end Outlet

def KeyFilter.accepts : KeyFilter → String → Bool
  | .single key, k => k == key
  | .under root, k => Fairway.under root k

namespace Watch

/-- A watch sees what is published from now on. -/
def start (s : Store) (filter : KeyFilter) : Watch := ⟨filter, s.log.size, {}⟩

/-- Reads one event of the log and keeps it if it is of interest. A watch that has fallen behind goes on
with the oldest event that is retained. -/
def read (s : Store) (w : Watch) : Watch :=
  if w.cursor < s.horizon then { w with cursor := s.horizon }
  else
    match s.log[w.cursor]? with
    | none => w
    | some e =>
      let hand := if w.filter.accepts e.key then some e else none
      { w with cursor := w.cursor + 1, outlet := { w.outlet with hand } }

def canRead (s : Store) (w : Watch) : Bool := w.outlet.waiting && w.cursor < s.log.size

def canProceed (s : Store) (w : Watch) : Bool := w.outlet.canProceed || w.canRead s

def step (s : Store) (w : Watch) : Watch :=
  if w.outlet.canProceed then { w with outlet := w.outlet.proceed }
  else if w.canRead s then w.read s
  else w

/-- Told to stop, and no longer listened to. -/
def drop (w : Watch) : Watch := { w with outlet := w.outlet.tell.detach }

end Watch

namespace Relay

variable {β : Type}

def start (s : Store) (filter : KeyFilter) : Relay β := ⟨Watch.start s filter, {}⟩

/-- Whether the loop waits and its watch has an event for it, or nothing more to come. -/
def canTake (r : Relay β) : Bool :=
  r.outlet.waiting && (r.source.outlet.slot.isSome || r.source.outlet.ended)

/-- A loop that ends drops its watch. -/
def close (r : Relay β) : Relay β := ⟨r.source.drop, r.outlet.stop⟩

/-- Takes an event from the watch; one that says nothing to the consumer is passed over. -/
def take (interpret : Event → Option β) (r : Relay β) : Relay β :=
  match r.source.outlet.receive with
  | (some e, rest) =>
    { source := { r.source with outlet := rest }, outlet := { r.outlet with hand := interpret e } }
  | (none, _) => r.close

def canProceed (s : Store) (r : Relay β) : Bool :=
  r.source.canProceed s || r.outlet.canProceed || r.canTake

def stepOutlet (interpret : Event → Option β) (r : Relay β) : Relay β :=
  if r.outlet.canProceed then
    let outlet := r.outlet.proceed
    if outlet.running then { r with outlet } else r.close
  else if r.canTake then r.take interpret
  else r

/-- A step of the watch, then one of the loop. -/
def step (s : Store) (interpret : Event → Option β) (r : Relay β) : Relay β :=
  { r with source := r.source.step s }.stepOutlet interpret

def tell (r : Relay β) : Relay β := { r with outlet := r.outlet.tell }

def detach (r : Relay β) : Relay β := { r with outlet := r.outlet.detach }

end Relay

end Fairway
