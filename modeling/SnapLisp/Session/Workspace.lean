import SnapLisp.Session.Basic
/-!
# Workspaces

Several sessions side by side. Each session has a seat, which is the place of its environment in the
workspace; sessions that share an environment have the same seat. A session gets its seat when it is
created, either a new one or that of the session that it shares with.
-/

namespace SnapLisp

namespace Session

inductive Request
  | runLine (line : List Char)
  | evalLine (source : List Char)
  | evalSource (source : List Char)

inductive Answer
  | text (s : String)
  | value (v : Value)
  | values (vs : List Value)
  | fault (f : Fault)

def Request.run (mode : Mode) : Request → EvalM Answer
  | .runLine line => return .text (← Session.runLine mode line)
  | .evalLine source => return .value (← Session.evalLine mode source)
  | .evalSource source => return .values (← Session.evalSource mode source)

def answer (mode : Mode) (request : Request) (env : Environment) : Answer × Environment :=
  match request.run mode ⟨env, []⟩ with
  | .ok a s => (a, s.env)
  | .error fault s => (.fault fault, s.env)

end Session

structure Workspace where
  environments : List Environment
  /-- The seat of each session that has one. -/
  seats : List (Int × Nat)

namespace Workspace

inductive Request
  /-- A new session, with the environment of another one or with one of its own. -/
  | create (shared : Option Int)
  | ask (request : Session.Request)

namespace Request

/-- The session whose environment a new session is to have. -/
def shared : Request → Option Int
  | create shared => shared
  | ask _ => none

/-- The answer to a request in an environment, which there is none to a creation, and the environment
after it. -/
def answer (mode : Mode) (env : Environment) : Request → Option Session.Answer × Environment
  | create _ => (none, env)
  | ask request =>
    let (answer, env) := Session.answer mode request env
    (some answer, env)

end Request

def empty : Workspace :=
  ⟨[], []⟩

def environment (ws : Workspace) (seat : Nat) : Environment :=
  ws.environments.getD seat .initial

/-- Gives a session its seat, unless it has one. -/
def enter (ws : Workspace) (session : Int) (shared : Option Int) : Workspace × Nat :=
  match ws.seats.lookup session with
  | some seat => (ws, seat)
  | none =>
    match shared.bind fun other => ws.seats.lookup other with
    | some seat => ({ ws with seats := (session, seat) :: ws.seats }, seat)
    | none =>
      let seat := ws.environments.length
      (⟨ws.environments ++ [.initial], (session, seat) :: ws.seats⟩, seat)

/-- Puts a request to a session, and gives the answer and the session's environment. A session that is
asked before it is created is created then, with an environment of its own. -/
def answer (mode : Mode) (ws : Workspace) (session : Int) (request : Request) :
    Option Session.Answer × Environment × Workspace :=
  let (ws, seat) := ws.enter session request.shared
  let (answer, env) := request.answer mode (ws.environment seat)
  (answer, env, { ws with environments := ws.environments.set seat env })

end Workspace

end SnapLisp
