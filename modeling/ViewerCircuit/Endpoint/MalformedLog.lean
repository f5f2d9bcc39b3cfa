import ViewerCircuit.Address
import ViewerCircuit.Table

/-!
# Logging malformed datagrams

A source of malformed datagrams is logged loudly at most once per interval. What is remembered
about sources is cleaned up when there are many of them.
-/
namespace ViewerCircuit

structure MalformedLog where
  interval : Nat
  logged : Table Address Nat := []
  deriving DecidableEq, Repr

namespace MalformedLog

def maxSources : Nat := 1024

/-- An entry of this age still silences its source. -/
def recent (log : MalformedLog) (now last : Nat) : Bool := now - last < log.interval

/-- Whether a malformed datagram is to be logged loudly. -/
def note (log : MalformedLog) (source : Address) (now : Nat) : Bool × MalformedLog :=
  if (log.logged.get? source).any (log.recent now) then (false, log)
  else
    let kept : Table Address Nat :=
      if maxSources ≤ log.logged.length then log.logged.filter fun e => log.recent now e.2
      else log.logged
    (true, { log with logged := kept.put source now })

end MalformedLog
end ViewerCircuit
