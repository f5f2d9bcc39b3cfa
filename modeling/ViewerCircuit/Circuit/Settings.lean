import ViewerCircuit.Circuit.Basic

/-!
# Settings

What the simulation and its handlers may set on a circuit at any time. None of this is heard by the
viewer.
-/
namespace ViewerCircuit.Site

def setBlocked (blocked : Bool) (s : Site) : Site := s.update fun c => { c with blocked }

def applyThrottles (block : Bytes) (now : Nat) (s : Site) : Option ThrottleError × Site :=
  match Rates.grant s.circuit.queue.rates block s.circuit.config.throttle with
  | .ok rates => (none, s.update fun c => { c with queue := c.queue.withRates rates now })
  | .error e => (some e, s)

def setProxy (proxy : Option Address) (s : Site) : Site := s.update fun c => { c with proxy }

def setStartPosition (position : Vec3) (s : Site) : Site :=
  s.update fun c => { c with startPosition := position }

def addHandler (kind : MessageKind) (handler : Handler) (s : Site) : Site :=
  s.update fun c => { c with handlers := (c.handlers.register kind handler).2 }

def subscribe (kind : ViewerEventKind) (subscriber : Handler) (s : Site) : Site :=
  s.update fun c => { c with subscribers := c.subscribers ++ [(kind, subscriber)] }

end ViewerCircuit.Site
