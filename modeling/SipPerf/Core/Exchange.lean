import SipPerf.Core.Strans

/-!
# A Request over UDP

Two stacks and the network between them. A client transaction of one stack
sends its request, and the ACK if it is called for, to the other stack. What
that sends about the request comes back to the client transaction, which is
looked up by its branch and its method.

The network loses what it likes, delivers what it delivers as often and in
whatever order it likes, and does not hold on to a request for longer than it
is said to. Time is that of both clocks. Other requests come to the server at
any time, and its user and its timers do what they can do.

## Main definitions

* `Net`: The two stacks.
* `Matches`, `answer`: What the client transaction is found for.
* `ackOf`: The ACK it sends.
* `netStep`: What can happen.
* `netInit`: The request has been sent.
-/

namespace SipPerf

namespace Exchange

open Ctrans Strans

/-- The client transaction, the stack the request goes to, and the time. -/
structure Net where
  client : CtRun
  server : StRun
  now : Nat

/-- Something of the client transaction, a response to it, a copy of its
    request that was sent at the given time, its ACK, or anything else at the
    server. -/
inductive NetEvent where
  | client (e : CtEvent)
  | response (scode now : Nat) (acked : Bool)
  | request (sentAt now : Nat) (sent : Bool) (tu : TuAction)
  | ack (now : Nat) (sent : Bool) (tu : TuAction)
  | server (e : StEvent)

/-- `cmp_handler` of the client transactions, for a response to `msg`. -/
def Matches (req msg : SipMsg) : Prop := msg.branch = req.branch ∧ msg.cseqMet = req.cseqMet

instance decidableMatches (req msg : SipMsg) : Decidable (Matches req msg) :=
  inferInstanceAs (Decidable (_ ∧ _))

/-- The status code of a response to the request. -/
def answer (req : SipMsg) : StOut → Option Nat
  | .send _ msg (some r) => if Matches req msg then some r.scode else none
  | .stateless msg scode => if Matches req msg then some scode else none
  | _ => none

/-- The ACK for a rejection, from `request_copy`. -/
def ackOf (req : SipMsg) : SipMsg := { req with met := "ACK", cseqMet := "ACK" }

/-- The responses are given by the network. -/
def isResponse : CtEvent → Bool
  | .response _ _ _ => true
  | _ => false

def clientStep (n : Net) (e : CtEvent) : Option Net :=
  match ctStep { n.client with now := max n.client.now n.now } e with
  | none => none
  | some c => some { n with client := c, now := c.now }

def serverStep (n : Net) (e : StEvent) : Option Net :=
  match stStep { n.server with now := max n.server.now n.now } e with
  | none => none
  | some s => some { n with server := s, now := s.now }

/-- What can happen, with `delay` the longest time a request is under way. -/
def netStep (req : SipMsg) (delay : Nat) (n : Net) : NetEvent → Option Net
  | .client e => if isResponse e then none else clientStep n e
  | .response scode now acked =>
      -- Responses may come late, again and in any order.
      if scode ∈ n.server.outs.filterMap (answer req) then
        clientStep n (.response scode now acked)
      else none
  | .request sentAt now sent tu =>
      -- So may copies of the request, but none after `delay`.
      if sentAt ∈ n.client.sentAt ∧ now ≤ sentAt + delay then
        serverStep n (.recv req now sent tu)
      else none
  | .ack now sent tu =>
      if .ack ∈ n.client.outs then serverStep n (.recv (ackOf req) now sent tu) else none
  | .server e => serverStep n e

/-- The request has been sent at `t` over UDP, and the timers are started at
    `c1` and `c2`. -/
def netInit (req : SipMsg) (t c1 c2 : Nat) (server : StRun) : Net :=
  { client := ctInit (decide (req.met = "INVITE")) false t c1 c2, server := server, now := t }

end Exchange

end SipPerf
