import SipPerf.Core.Dns

/-!
# SIP Requests

A request of `libre/src/sip/request.c`, from the search for a server to the
outcome. The name of the server is looked up in up to three steps, and the
request is sent to one of the addresses found after the other until one of
them answers it. It can be cancelled at any time, and goes on without an owner
if it is let go of.

A transaction is there or not. What it reports comes as any number of
provisional responses and then one outcome. The answers to the lookups come as
lists of records. Which transports there are is a parameter, and whether the
stack takes a request or a query is given with the event that leads to it.

## Main definitions

* `Request`, `RequestOut`: A request, and what it does.
* `requestNext`: The next address.
* `naptrHandler`, `srvHandler`, `addrHandler`: The answers to lookups.
* `responseHandler`, `sipRequestCancel`, `destructor`, `closeHandler`: The
  handlers of everything else.
* `sipRequest`: A new request.
* `RequestRun`, `requestStep`: A request with its history, and the events in any
  order.
-/

namespace SipPerf

namespace SipRequest

open Dns

def enoent : Nat := 2

def einval : Nat := 22

def edestaddrreq : Nat := 89

def eprotonosupport : Nat := 93

def econnaborted : Nat := 103

/-- `sip_transp`: UDP, TCP and TLS are 0 to 2. -/
def transpNone : Int := -1

def transpc : Int := 3

inductive Af where
  | unspec
  | inet
  | inet6
deriving DecidableEq

/-- `sip_transp_supported`. -/
abbrev Supported := Int → Af → Bool

/-- A lookup that has not been answered. -/
inductive Query where
  | naptr
  | srv
  | addr
deriving DecidableEq

/-- `sip_request`. `reqp`, `resph` and `ct` are whether they are set. -/
structure Request where
  reqp : Bool
  resph : Bool
  ct : Bool
  dnsq : Option Query
  dnsq2 : Bool
  cachel : List DnsRr
  addrl : List DnsRr
  srvl : List DnsRr
  host : Name
  tp : Int
  tpSelected : Bool
  stateful : Bool
  canceled : Bool
  provrecv : Bool
  port : Nat
deriving DecidableEq

/-- What a request does: it takes a server to try, or is sent to the address of
    a record, or to the one it was made for; it cancels its transaction, or
    calls its response handler. -/
inductive RequestOut where
  | server (rr : DnsRr)
  | send (tp : Int) (rr : Option DnsRr) (port : Nat)
  | cancel
  | provisional (scode : Nat)
  | final (err : Nat) (scode : Option Nat)
deriving DecidableEq

/-- What the stack says to what one event leads to: to the request as it is
    sent to one address after the other, and to lookups. The first argument of
    `send` is how many addresses the event has led to before. -/
structure Oracle where
  send : Nat → DnsRr → Nat → Nat
  query : Nat
  query2 : Nat

/-- `transp_next`. -/
def transpNext (sup : Supported) (tp : Int) : Option Int :=
  ([0, 1, 2].filter (fun i => tp < i)).find? (fun i => sup i .unspec)

/-- `transp_next_srv`. -/
def transpNextSrv (sup : Supported) (tp : Int) : Option Int :=
  ([2, 1, 0].filter (fun i => i < tp)).find? (fun i => sup i .unspec)

/-- `sip_transp_port`. -/
def sipTranspPort (tp : Int) (port : Nat) : Nat :=
  if port ≠ 0 then port else if tp = 0 ∨ tp = 1 then 5060 else if tp = 2 then 5061 else 0

/-! ## Lookups -/

/-- `srv_lookup`. -/
def srvLookup (req : Request) (o : Oracle) : Request × Nat :=
  if o.query = 0 then ({ req with dnsq := some .srv }, 0) else (req, o.query)

/-- `addr_lookup`. -/
def addrLookup (sup : Supported) (req : Request) (o : Oracle) : Request × Nat :=
  if sup req.tp .inet ∧ o.query ≠ 0 then (req, o.query)
  else
    let req := if sup req.tp .inet then { req with dnsq := some .addr } else req
    -- A second query that cannot be made leaves the first one pending.
    if sup req.tp .inet6 ∧ o.query2 ≠ 0 then (req, o.query2)
    else
      let req := if sup req.tp .inet6 then { req with dnsq2 := true } else req
      if req.dnsq = none ∧ req.dnsq2 = false then (req, eprotonosupport) else (req, 0)

/-! ## Addresses -/

/-- `request`, with its error. A request without state has no transaction. -/
def request (req : Request) (rr : Option DnsRr) (port err : Nat) : Request × List RequestOut :=
  let req := { req with provrecv := false }
  if err = 0 then ({ req with ct := req.stateful }, [.send req.tp rr port]) else (req, [])

/-- One address after the other, until one takes the request, after `k` others
    in the same event. `none` is that there is none left. -/
def tryAddrs (o : Oracle) : Nat → List DnsRr → Request → Option Nat × Request × List RequestOut
  | _, [], req => (none, { req with addrl := [] }, [])
  | k, rr :: rest, req =>
      if rr.type = .a ∨ rr.type = .aaaa then
        let err := o.send k rr req.port
        let r := request { req with addrl := rest } (some rr) req.port err
        if err = 0 then (some 0, r)
        -- The error is the result only when there is nothing else to try.
        else if rest = [] ∧ req.srvl = [] then (some err, r)
        else tryAddrs o (k + 1) rest r.1
      -- Not an address: the record stays where it is.
      else (some einval, { req with addrl := rr :: rest }, [])

/-- The next server is taken, with the addresses that are cached for it. -/
def takeServer (req : Request) (port : Nat) (target : Name) (rest : List DnsRr) : Request :=
  { req with
    port := port, srvl := rest,
    addrl := appendAll req.cachel (some target) .a .aaaa true req.addrl }

/-- `request_next` after `k` addresses, with the servers it can still come
    to. -/
def nextFrom (sup : Supported) (o : Oracle) :
    Nat → List DnsRr → Request → Nat × Request × List RequestOut
  | k, servers, req =>
      let tried := k + req.addrl.length
      match tryAddrs o k req.addrl req with
      | (some err, r) => (err, r)
      | (none, req, outs) => match servers with
        | [] => (enoent, req, outs)
        | rr :: rest => match rr.rdata with
          | .srv _ _ port target =>
              let req := takeServer req port target rest
              -- Nothing cached for this server, so its addresses are asked for.
              if req.addrl = [] then
                let r := addrLookup sup req o
                (r.2, r.1, outs ++ [.server rr])
              else
                let r := nextFrom sup o tried rest req
                (r.1, r.2.1, outs ++ .server rr :: r.2.2)
          | _ => (einval, req, outs)

/-- `request_next`. -/
def requestNext (sup : Supported) (o : Oracle) (req : Request) : Nat × Request × List RequestOut :=
  nextFrom sup o 0 req.srvl req

/-! ## Handlers -/

/-- `terminate`, and the request lets go of itself. -/
def terminate (req : Request) (err : Nat) (scode : Option Nat) : Option Request × List RequestOut :=
  (none, if req.resph then [.final err scode] else [])

/-- The end of the handlers of answers: a request without state is done when it
    is sent. -/
def settle (r : Nat × Request × List RequestOut) : Option Request × List RequestOut :=
  if r.1 ≠ 0 then
    let t := terminate r.2.1 r.1 none
    (t.1, r.2.2 ++ t.2)
  -- With state, the transaction has yet to report.
  else if r.2.1.stateful then (some r.2.1, r.2.2)
  else
    let t := terminate { r.2.1 with resph := false } 0 none
    (t.1, r.2.2 ++ t.2)

/-- `rr_naptr_handler`. -/
def naptrTransp (sup : Supported) (services : Name) : Option Int :=
  let tp := if strCasecmp services "SIP+D2U".toList then some 0
    else if strCasecmp services "SIP+D2T".toList then some 1
    else if strCasecmp services "SIPS+D2T".toList then some 2 else none
  tp.filter (fun tp => sup tp .unspec)

/-- `rr_cache_handler` for all records. -/
def cacheAll (sup : Supported) (tp : Int) (addl : List DnsRr) : List DnsRr :=
  addl.filter (fun rr => rr.dnsclass == classIn && match rr.type with
    | .a => sup tp .inet
    | .aaaa => sup tp .inet6
    | .cname => true
    | _ => false)

/-- A lookup that is made, or the end of the request. -/
def lookedUp (r : Request × Nat) : Option Request × List RequestOut :=
  if r.2 = 0 then (some r.1, []) else terminate r.1 r.2 none

/-- `naptr_handler`. The query is not pending any more. -/
def naptrHandler (sup : Supported) (req : Request) (ansl addl : List DnsRr) (o : Oracle) :
    Option Request × List RequestOut :=
  let found := (dnsRrlistSort ansl .naptr).findSome? (fun rr => match rr.rdata with
    | .naptr _ _ services replace =>
        if rr.dnsclass = classIn then (naptrTransp sup services).map (fun tp => (tp, replace))
        else none
    | _ => none)
  match found with
  -- No service that is supported: the transports are gone through instead.
  | none => match transpNextSrv sup transpc with
    | none => terminate { req with tp := transpc } eprotonosupport none
    | some tp => lookedUp (srvLookup { req with tp := tp } o)
  | some (tp, replace) =>
      let req := { req with tp := tp, tpSelected := true }
      let addl := dnsRrlistSort addl .srv
      let req := { req with srvl := appendAll addl (some replace) .srv .srv true req.srvl }
      -- The servers did not come along with the answer.
      if req.srvl = [] then lookedUp (srvLookup req o)
      else settle (requestNext sup o { req with cachel := req.cachel ++ cacheAll sup req.tp addl })

/-- `srv_handler`. -/
def srvHandler (sup : Supported) (req : Request) (ansl addl : List DnsRr) (o : Oracle) :
    Option Request × List RequestOut :=
  let req := { req with srvl := appendAll (dnsRrlistSort ansl .srv) none .srv .srv false req.srvl }
  if req.srvl = [] then
    -- The next transport may have servers, unless one was selected.
    match (if req.tpSelected then none else transpNextSrv sup req.tp) with
    | some tp => lookedUp (srvLookup { req with tp := tp } o)
    | none =>
        -- No servers for any transport: the name is that of a host.
        match (if req.tpSelected then some req.tp else transpNext sup transpNone) with
        | none => terminate { req with tp := transpNone } eprotonosupport none
        | some tp =>
            lookedUp (addrLookup sup { req with tp := tp, port := sipTranspPort tp 0 } o)
  else settle (requestNext sup o { req with cachel := req.cachel ++ cacheAll sup req.tp addl })

/-- `addr_handler`, for the first or the second of its two queries. -/
def addrHandler (sup : Supported) (req : Request) (err : Nat) (ansl : List DnsRr) (o : Oracle) :
    Option Request × List RequestOut :=
  let req := { req with addrl := appendAll ansl none .a .aaaa false req.addrl }
  -- The answer to the other query goes on from here.
  if req.dnsq.isSome ∨ req.dnsq2 then (some req, [])
  else if req.addrl = [] ∧ req.srvl = [] then
    terminate req (if err ≠ 0 then err else edestaddrreq) none
  else settle (requestNext sup o req)

/-- `response_handler` for a response below 200. -/
def provisionalHandler (req : Request) (scode : Nat) : Request × List RequestOut :=
  let first := !req.provrecv
  -- A CANCEL from before the first response goes out with it.
  ({ req with provrecv := true },
    (if first ∧ req.canceled ∧ req.ct then [.cancel] else []) ++
      if req.resph then [.provisional scode] else [])

/-- `response_handler` for an outcome. The transaction is gone. -/
def outcomeHandler (sup : Supported) (req : Request) (err : Nat) (scode : Option Nat) (o : Oracle) :
    Option Request × List RequestOut :=
  let req := { req with ct := false }
  -- This server has failed, and there are others left.
  if req.canceled = false ∧ (err ≠ 0 ∨ scode = some 503) ∧ (req.addrl ≠ [] ∨ req.srvl ≠ []) then
    let r := requestNext sup o req
    if r.1 = 0 then (some r.2.1, r.2.2)
    else
      let t := terminate r.2.1 r.1 scode
      (t.1, r.2.2 ++ t.2)
  else terminate req err scode

/-- `sip_request_cancel`. There is nothing to cancel without a transaction. -/
def sipRequestCancel (req : Request) : Request × List RequestOut :=
  if req.canceled then (req, [])
  else ({ req with canceled := true }, if req.provrecv ∧ req.ct then [.cancel] else [])

/-- `destructor`, when the owner lets go. -/
def destructor (req : Request) : Option Request × List RequestOut :=
  if req.reqp ∧ req.stateful then
    -- It is cancelled, lives on, and reports nothing any more.
    let r := sipRequestCancel { req with reqp := false, resph := false }
    (some r.1, r.2)
  else (none, [])

/-- `close_handler`. -/
def closeHandler (req : Request) : Option Request × List RequestOut :=
  terminate { req with dnsq := none, dnsq2 := false, ct := false } econnaborted none

/-! ## New requests -/

/-- Where a new request goes: its host is an address, or has a port, or is a
    name, and its transport is given or not. -/
structure Route where
  host : Name
  address : Bool
  port : Nat
  tp : Option Int

/-- What a request begins with. `reqp` is whether the owner keeps it. -/
def newRequest (stateful reqp : Bool) (route : Route) (tp : Int) : Request :=
  { reqp := reqp, resph := true, ct := false, dnsq := none, dnsq2 := false, cachel := [], addrl := [],
    srvl := [], host := route.host, tp := tp, tpSelected := route.tp.isSome, stateful := stateful,
    canceled := false, provrecv := false, port := 0 }

/-- The first lookup of a request. -/
def firstLookup (sup : Supported) (req : Request) (route : Route) (o : Oracle) : Request × Nat :=
  if route.port ≠ 0 then addrLookup sup { req with port := sipTranspPort req.tp route.port } o
  else if req.tpSelected then srvLookup req o
  else if o.query = 0 then ({ req with dnsq := some .naptr }, 0) else (req, o.query)

/-- `sip_request`, with its error. -/
def sipRequest (sup : Supported) (stateful reqp : Bool) (route : Route) (sendErr : Nat) (o : Oracle) :
    Except Nat (Option Request × List RequestOut) :=
  let tp := match route.tp with
    | some tp => if sup tp .unspec then some tp else none
    | none => transpNext sup transpNone
  match tp with
  | none => .error eprotonosupport
  | some tp =>
      let req := newRequest stateful reqp route tp
      if route.address then
        let r := request req none (sipTranspPort tp route.port) sendErr
        if sendErr ≠ 0 then .error sendErr
        else if stateful then .ok (some r.1, r.2) else .ok (none, r.2)
      else
        let r := firstLookup sup req route o
        if r.2 = 0 then .ok (some r.1, []) else .error r.2

/-! ## Runs -/

/-- A request with what it has done, latest first, and whether its owner has
    let go of it. -/
structure RequestRun where
  req : Option Request
  outs : List RequestOut
  released : Bool

/-- What can happen to a request. -/
inductive RequestEvent where
  | answer (err : Nat) (ansl addl : List DnsRr) (o : Oracle)
  | answer2 (err : Nat) (ansl : List DnsRr) (o : Oracle)
  | provisional (scode : Nat)
  | outcome (err : Nat) (scode : Option Nat) (o : Oracle)
  | cancel
  | release
  | close

/-- A request that has just been made. -/
def RequestRun.new (r : Option Request × List RequestOut) : RequestRun :=
  { req := r.1, outs := r.2.reverse, released := false }

def RequestRun.after (s : RequestRun) (r : Option Request × List RequestOut) : RequestRun :=
  { s with req := r.1, outs := r.2.reverse ++ s.outs }

/-- The answer to the first of the lookups. -/
def answerHandler (sup : Supported) (req : Request) (err : Nat) (ansl addl : List DnsRr)
    (o : Oracle) : Query → Option Request × List RequestOut
  | .naptr => naptrHandler sup req ansl addl o
  | .srv => srvHandler sup req ansl addl o
  | .addr => addrHandler sup req err ansl o

/-- One event. Answers come to lookups and responses to transactions, and only
    an owner can cancel a request or let go of it. -/
def requestStep (sup : Supported) (s : RequestRun) (e : RequestEvent) : Option RequestRun :=
  match s.req with
  | none => none
  | some req => match e with
    | .answer err ansl addl o => match req.dnsq with
      | none => none
      | some q => some (s.after (answerHandler sup { req with dnsq := none } err ansl addl o q))
    | .answer2 err ansl o =>
        if req.dnsq2 then some (s.after (addrHandler sup { req with dnsq2 := false } err ansl o))
        else none
    | .provisional scode =>
        if req.ct then
          let r := provisionalHandler req scode
          some (s.after (some r.1, r.2))
        else none
    | .outcome err scode o =>
        if req.ct then some (s.after (outcomeHandler sup req err scode o)) else none
    | .cancel =>
        if req.reqp then
          let r := sipRequestCancel req
          some (s.after (some r.1, r.2))
        else none
    | .release =>
        if req.reqp then some { s.after (destructor req) with released := true } else none
    | .close => some (s.after (closeHandler req))

end SipRequest

end SipPerf
