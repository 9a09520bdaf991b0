import Mathlib.Init

/-! `net::Channel`: the event interest of one descriptor and the order in which
its callbacks run. A callback is a function on whatever state it acts on. -/

namespace CppSearchServer.Net

abbrev EventMask := UInt32

def EPOLLIN : EventMask := 0x001
def EPOLLOUT : EventMask := 0x004
def EPOLLERR : EventMask := 0x008
def EPOLLHUP : EventMask := 0x010

/-- `(mask & event) != 0`. -/
def EventMask.has (mask event : EventMask) : Bool := mask &&& event != 0

structure Channel where
  fd : Int
  events : EventMask
deriving DecidableEq, Repr

namespace Channel

def new (fd : Int) : Channel := ⟨fd, 0⟩

def enableReading (c : Channel) : Channel := { c with events := c.events ||| EPOLLIN }

def enableWriting (c : Channel) : Channel := { c with events := c.events ||| EPOLLOUT }

def disableWriting (c : Channel) : Channel := { c with events := c.events &&& ~~~EPOLLOUT }

/-- An error or hang-up runs the error callback alone; otherwise the read
callback runs before the write callback. -/
def handleEvent {σ : Type*} (revents : EventMask)
    (readCallback writeCallback errorCallback : σ → σ) (s : σ) : σ :=
  if revents.has (EPOLLERR ||| EPOLLHUP) then errorCallback s
  else
    let s := if revents.has EPOLLIN then readCallback s else s
    if revents.has EPOLLOUT then writeCallback s else s

end Channel

/-- The two interest sets a connection's channel alternates between. -/
def readInterest : EventMask := EPOLLIN
def writeInterest : EventMask := EPOLLIN ||| EPOLLOUT

theorem enableWriting_events {c : Channel}
    (h : c.events = readInterest ∨ c.events = writeInterest) :
    c.enableWriting = ⟨c.fd, writeInterest⟩ := by
  rcases h with h | h <;> simp only [Channel.enableWriting, h, Channel.mk.injEq, true_and] <;>
    decide

theorem disableWriting_events {c : Channel}
    (h : c.events = readInterest ∨ c.events = writeInterest) :
    c.disableWriting = ⟨c.fd, readInterest⟩ := by
  rcases h with h | h <;> simp only [Channel.disableWriting, h, Channel.mk.injEq, true_and] <;>
    decide

end CppSearchServer.Net
