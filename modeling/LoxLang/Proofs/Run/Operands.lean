import LoxLang.Proofs.Run.Observance
import LoxLang.Proofs.Run.Retracing
import LoxLang.Proofs.Run.Soundness

/-!
# What is called, and with what

A call is made when what is called and the arguments have been evaluated.  This part of
its evaluation is looked at by itself here, so that the call can be looked at from where
it begins.
-/

namespace LoxLang

/-- Evaluate what is called, and then the arguments. -/
def Run.operands (host : Host) (room : Nat) (callee : Expr Site) (args : List (Expr Site)) :
    Run (Value × List Value) := do
  let value ← eval host room callee
  let values ← evalEach (eval host room) args
  return (value, values)

/-- Evaluate what is called, and then the arguments, in a call at an address. -/
def Watching.operands (host : Host) (room : Nat) (address : Address) (callee : Expr Site)
    (args : List (Expr Site)) : Watching (Value × List Value) := do
  let value ← eval host room (address.child 0) callee
  let values ← evalEach (fun index => eval host room (address.child index)) 1 args
  return (value, values)

/-- At the moment a call is evaluated, and on this machine the value is about to be called with the
arguments. -/
def Moment.Calls (host : Host) (moment : Moment) (paren : Token) (value : Value)
    (values : List Value) (ready : Machine) : Prop :=
  ∃ callee args room, moment.node = .expr (.call callee paren args) ∧
    Run.operands host room callee args moment.machine = .ok (value, values) ready

/-- A call that is about to be made: the parenthesis at which it is, what is called, the arguments,
and the machine. -/
structure Call where
  paren : Token
  value : Value
  values : List Value
  ready : Machine

/-- Make the call, with room for its parts. -/
def Call.run (host : Host) (room : Nat) (call : Call) : Run Value :=
  Run.callValue host (Run.exec host room) call.paren call.value call.values

/-- The call that is about to be made when its evaluation has begun at the moment, if it comes as
far as this with the room. -/
def Moment.call? (host : Host) (room : Nat) (moment : Moment) : Option Call :=
  match moment.node with
  | .expr (.call callee paren args) =>
      (outcome? (Run.operands host room callee args) moment.machine).map fun called =>
        ⟨paren, called.1.1, called.1.2, called.2⟩
  | _ => none

theorem Moment.Calls.of_call? {host : Host} {room : Nat} {moment : Moment} {call : Call}
    (called : moment.call? host room = some call) :
    moment.Calls host call.paren call.value call.values call.ready := by
  unfold call? at called
  split at called
  · rename_i callee paren args isCall
    obtain ⟨⟨⟨value, values⟩, ready⟩, ends, rfl⟩ := Option.map_eq_some_iff.1 called
    exact ⟨callee, args, room, isCall, outcome?_eq_some.1 ends⟩
  · cases called

theorem Watching.operands_retraces (host : Host) (room : Nat) (address : Address)
    (callee : Expr Site) (args : List (Expr Site)) :
    Watched.Retraces (operands host room address callee args)
      (Run.operands host room callee args) := by
  have argsRetrace := evalEach_retraces
    (fun index => eval_retraces host room (address.child index)) 1 args
  refine (eval_retraces host room (address.child 0) callee).bind fun value => ?_
  exact argsRetrace.bind fun values => .pure (value, values)

theorem Watching.operands_safe {survey : Survey} {world : World} {context : Context} (host : Host)
    (room : Nat) {address : Address} {callee : Expr Site} {paren : Token}
    {args : List (Expr Site)} (sound : world.Sound survey)
    (mirrors : world.Mirrors world.machine.current context)
    (isScoped : (Expr.call callee paren args).Scoped survey context address) :
    Safe survey world (operands host room address callee args) fun called later =>
      called.1.Sound survey later ∧ ∀ arg ∈ called.2, arg.Sound survey later := by
  obtain ⟨_, parts⟩ := isScoped
  cases parts with
  | call calleeScoped argsScoped =>
      apply Safe.bind (eval_safe host room sound mirrors calleeScoped)
      intro value second leads valueSound
      have argsSafe : Safe survey second
          (evalEach (fun index => eval host room (address.child index)) 1 args) _ :=
        evalEach_safe leads.sound (leads.mirrors mirrors)
          fun later offset arg sound mirrors there =>
            eval_safe host room sound mirrors (Nat.add_comm offset 1 ▸ argsScoped offset arg there)
      apply Safe.bind argsSafe
      intro values last lastLeads argsSound
      exact Safe.pure lastLeads.sound ⟨valueSound.mono lastLeads.follows, argsSound⟩

theorem Protocol.Keeps.operands {law : Protocol} {start : Running} (host : Host) (room : Nat)
    {address : Address} {callee : Expr Site} {paren : Token} {args : List (Expr Site)}
    (ok : law.Ok start)
    (fits : law.Fits start start.state.current (.expr (.call callee paren args))) :
    law.Keeps start (Watching.operands host room address callee args) fun called running =>
      law.Good called.1 running ∧ law.AllGood called.2 running := by
  apply bind (eval host room ok (law.inside 0 fits rfl rfl))
  intro value middle led valueGood
  apply bind (evalEach led.ok (argsFit (led.fits fits)) fun start index arg => eval host room)
  exact fun _ _ lastLed argsGood => pure lastLed.ok ⟨lastLed.good valueGood, argsGood⟩

end LoxLang
