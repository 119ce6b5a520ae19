import AgentLedger.Feed
import AgentLedger.Node

namespace AgentLedger

/-!
# Networks of nodes

Named nodes stand on two clocks. The wall clock, from which blocks take their times, is set from
outside; the timer moves on when someone waits, and production loops run by it. Readers of
announcements and senders of batches are known by names too and outlive the nodes they are
connected to.
-/

/-- Someone who listens to a node, or who reads what is left of an announcer that has ended. -/
structure Subscription where
  source : String ⊕ Announcer
  place : Nat

inductive Delivery where
  | found (a : Announcement)
  | closed

structure Network where
  wallClock : Int64
  timer : Nat
  nodes : SortedMap String Node
  subscriptions : SortedMap String Subscription
  feeds : SortedMap Nat Feed
  /-- The number of the feed behind the name of a sender. -/
  senders : SortedMap String Nat

namespace Network

def atTime (wallClock : Int64) : Network := ⟨wallClock, 0, .empty, .empty, .empty, .empty⟩

def setClock (w : Network) (wallClock : Int64) : Network := { w with wallClock }

def node? (w : Network) (name : String) : Option Node := w.nodes.get? name

def setNode (w : Network) (name : String) (n : Node) : Network :=
  { w with nodes := w.nodes.insert name n }

/-! ## Feeds -/

/-- A feed that was never opened has nobody at its end. -/
def feed (w : Network) (number : Nat) : Feed :=
  (w.feeds.get? number).getD (Feed.withCapacity 0).close

def setFeed (w : Network) (number : Nat) (f : Feed) : Network :=
  { w with feeds := w.feeds.insert number f }

/-- Opens a feed whose sender has a name. -/
def openFeed (w : Network) (sender : String) (capacity : Nat) : Nat × Network :=
  let number := w.feeds.size
  (number, { w.setFeed number (.withCapacity capacity) with
    senders := w.senders.insert sender number })

def closeFeed (w : Network) (number : Nat) : Network := w.setFeed number (w.feed number).close

def send (w : Network) (sender : String) (batch : List Transaction) : SendResult × Network :=
  match w.senders.get? sender with
  | none => (.closed, w)
  | some number =>
      let (result, f) := (w.feed number).send batch
      (result, w.setFeed number f)

/-- Gives up the sending side; what is queued can still be received. -/
def closeSender (w : Network) (sender : String) : Network :=
  { w with senders := w.senders.erase sender }

/-! ## Subscriptions -/

def subscribe (w : Network) (name : String) (n : Node) (reader : String) : Network :=
  let (place, listening) := n.subscribe
  { w.setNode name listening with
    subscriptions := w.subscriptions.insert reader ⟨.inl name, place⟩ }

def receive (w : Network) (reader : String) : Delivery × Network :=
  match w.subscriptions.get? reader with
  | none => (.closed, w)
  | some s =>
      let announcer? :=
        match s.source with
        | .inl name => (w.node? name).bind fun n => n.producer.announcer
        | .inr ended => some ended
      match announcer? with
      | none => (.closed, w)
      | some a =>
          let (found, place) := a.read s.place
          let read := { w with subscriptions := w.subscriptions.insert reader { s with place } }
          match found, s.source with
          | .nothing, .inr _ => (.closed, read)
          | _, _ => (.found found, read)

/-- Lets those who listen to a node read what is left. -/
def endSubscriptions (w : Network) (name : String) (a : Announcer) : Network :=
  let ended (s : Subscription) : Subscription :=
    match s.source with
    | .inl listened => if listened = name then { s with source := .inr a } else s
    | .inr _ => s
  { w with subscriptions := .ofList (w.subscriptions.entries.map fun e => (e.1, ended e.2)) }

def endAnnouncements (w : Network) (name : String) (n : Node) : Network :=
  match n.producer.announcer with
  | some a => w.endSubscriptions name a
  | none => w

def endSource (w : Network) (n : Node) : Network :=
  match n.production with
  | some ⟨_, .feed number, _⟩ => w.closeFeed number
  | _ => w

/-! ## Life of a node -/

def drop (w : Network) (name : String) : Network :=
  match w.node? name with
  | none => w
  | some n => { (w.endSource n).endAnnouncements name n with nodes := w.nodes.erase name }

def start (w : Network) (name : String) (n : Node) (proposer : Address) :
    Except ChainError Unit × Network :=
  match n.start ⟨proposer, .pool, w.timer⟩ with
  | .ok started => (.ok (), w.setNode name started)
  | .error e => (.error e, w)

/-- Starts a node on a new feed. If the node does not start, nobody receives from the feed. -/
def startOnFeed (w : Network) (name : String) (n : Node) (proposer : Address) (sender : String)
    (capacity : Nat) : Except ChainError Unit × Network :=
  let (number, opened) := w.openFeed sender capacity
  match n.start ⟨proposer, .feed number, w.timer⟩ with
  | .ok started => (.ok (), opened.setNode name started)
  | .error e => (.error e, opened.closeFeed number)

def stop (w : Network) (name : String) (n : Node) : Network :=
  if n.isRunning then ((w.endSource n).endAnnouncements name n).setNode name n.stop else w

/-! ## Time -/

/-- One round of production at a node. -/
def round (w : Network) (name : String) : Network :=
  match w.node? name with
  | none => w
  | some n =>
      match n.production with
      | none => w
      | some ⟨proposer, .pool, _⟩ => w.setNode name (n.tickFromPool w.wallClock proposer)
      | some ⟨proposer, .feed number, _⟩ =>
          let (batch, left) := (w.feed number).next
          (w.setNode name (n.tick w.wallClock proposer batch)).setFeed number left

/-- How many rounds of a node fall after the present and up to a time. -/
def roundsDue (w : Network) (n : Node) (time : Nat) : Nat :=
  match n.production with
  | none => 0
  | some l =>
      let rounds := l.roundsUntil n.config.blockInterval
      rounds time - rounds w.timer

/-- Moves the timer on. Nodes do not see one another's rounds, so each may run its own in turn. -/
def wait (w : Network) (milliseconds : Nat) : Network :=
  let time := w.timer + milliseconds
  let run (v : Network) (e : String × Node) : Network :=
    (w.roundsDue e.2 time).repeat (fun v => v.round e.1) v
  { w.nodes.entries.foldl run w with timer := time }

end Network

end AgentLedger
