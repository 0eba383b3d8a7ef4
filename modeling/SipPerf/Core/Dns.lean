import SipPerf.Lib.BubbleSort

/-!
# Resource Records

The lists of resource records of `libre/src/dns/rrlist.c`: the order that a
list is sorted in, and the search through a list that follows aliases. A list
is the one that the memory stands for, and the passes of `list_sort` are passes
over it.

## Main definitions

* `DnsRr`: A resource record.
* `stdSortHandler`, `dnsRrlistSort`: The order of a list.
* `rrlistApply`: The search through a list.
-/

namespace SipPerf

namespace Dns

open BubbleSort

/-- A domain name. -/
abbrev Name := List Char

inductive DnsType where
  | a
  | cname
  | mx
  | aaaa
  | srv
  | naptr
  | other (code : Nat)
deriving DecidableEq

/-- `rdata`, as far as it is read. -/
inductive RData where
  | a (addr : Nat)
  | cname (cname : Name)
  | mx (pref : Nat)
  | aaaa (addr : Nat)
  | srv (pri weight port : Nat) (target : Name)
  | naptr (order pref : Nat) (services replace : Name)
  | other (code : Nat)
deriving DecidableEq

/-- `dnsrr`. `le` is what the record is known by. -/
structure DnsRr where
  le : Nat
  name : Name
  dnsclass : Nat
  rdata : RData
deriving DecidableEq

def DnsRr.type (rr : DnsRr) : DnsType :=
  match rr.rdata with
  | .a _ => .a
  | .cname _ => .cname
  | .mx _ => .mx
  | .aaaa _ => .aaaa
  | .srv _ _ _ _ => .srv
  | .naptr _ _ _ _ => .naptr
  | .other code => .other code

def classIn : Nat := 1

def strCasecmp (a b : Name) : Bool := a.map Char.toLower == b.map Char.toLower

/-- `std_sort_handler`. -/
def stdSortHandler (type : DnsType) (rr1 rr2 : DnsRr) : Bool :=
  if type ≠ rr1.type then decide (type ≠ rr2.type)
  else if type ≠ rr2.type then true
  else match rr1.rdata, rr2.rdata with
    | .mx pref1, .mx pref2 => decide (pref1 ≤ pref2)
    | .srv pri1 weight1 _ _, .srv pri2 weight2 _ _ =>
        -- Of one priority, those without weight come first.
        if pri1 = pri2 then if weight1 ≠ 0 then decide (weight2 ≠ 0) else true
        else decide (pri1 < pri2)
    | .naptr order1 pref1 _ _, .naptr order2 pref2 _ _ =>
        if order1 = order2 then decide (pref1 ≤ pref2) else decide (order1 < order2)
    | _, _ => true

/-- `dns_rrlist_sort`, which needs no more passes than these. -/
def dnsRrlistSort (rrl : List DnsRr) (type : DnsType) : List DnsRr :=
  (bubbleSort (stdSortHandler type) (rrl.length * rrl.length + 1) rrl).getD rrl

/-! ## Searches -/

def cnameRecurseMax : Nat := 16

/-- What a search looks for. A type or class of `none` is any. -/
structure RrQuery where
  type1 : Option DnsType
  type2 : Option DnsType
  dnsclass : Option Nat
  recurse : Bool

/-- The loop of `rrlist_apply` passes over a record. -/
def skips (q : RrQuery) (name : Option Name) (rr : DnsRr) : Bool :=
  name.any (fun n => !strCasecmp n rr.name) ||
    (q.type1.isSome && q.type2.isSome && q.type1 != some rr.type && q.type2 != some rr.type &&
      (rr.type != .cname || !q.recurse)) ||
    q.dnsclass.any (fun c => rr.dnsclass != c)

/-- The loop goes on with the name that a record is an alias of. -/
def follows (q : RrQuery) (rr : DnsRr) : Option Name :=
  match rr.rdata with
  | .cname cname =>
      if q.recurse && q.type1.isSome && q.type2.isSome && q.type1 != some .cname &&
        q.type2 != some .cname then some cname else none
  | _ => none

section Search

variable {σ : Type} (rrlh : DnsRr → σ → Bool × σ) (q : RrQuery)

/-- The loop from a record on. An alias is searched for by `deeper`, and the
    loop then goes on at the next depth. -/
def rrPass (deeper : Name → σ → Option DnsRr × σ)
    (next : List DnsRr → σ → Option DnsRr × σ) (name : Option Name) :
    List DnsRr → σ → Option DnsRr × σ
  | [], s => (none, s)
  | rr :: rest, s =>
      if skips q name rr then rrPass deeper next name rest s
      else
        let r := rrlh rr s
        if r.1 then (some rr, r.2)
        else match follows q rr with
          | none => rrPass deeper next name rest r.2
          | some cname => match deeper cname r.2 with
            | (some found, s') => (some found, s')
            -- `++depth` holds for the rest of the loop as well.
            | (none, s') => next rest s'

/-- The loop when aliases are not followed any more. -/
def rrLast (name : Option Name) : List DnsRr → σ → Option DnsRr × σ
  | [], s => (none, s)
  | rr :: rest, s =>
      if skips q name rr then rrLast name rest s
      else
        let r := rrlh rr s
        if r.1 then (some rr, r.2) else rrLast name rest r.2

/-- The loop with how many more depths there are. -/
def rrLoop (rrl : List DnsRr) : Nat → Option Name → List DnsRr → σ → Option DnsRr × σ
  | 0, name, rest, s => rrLast rrlh q name rest s
  | left + 1, name, rest, s =>
      rrPass rrlh q
        (fun cname s => if left = 0 then (none, s) else rrLoop rrl left (some cname) rrl s)
        (rrLoop rrl left name) name rest s

/-- `rrlist_apply`, from depth 0. -/
def rrlistApply (rrl : List DnsRr) (name : Option Name) (s : σ) : Option DnsRr × σ :=
  rrLoop rrlh q rrl (cnameRecurseMax + 1) name rrl s

end Search

/-- `rr_append_handler`. A record that is in the list already stays where it
    is. -/
def rrAppendHandler (rr : DnsRr) (lst : List DnsRr) : Bool × List DnsRr :=
  match rr.type with
  | .a | .aaaa | .srv => (false, if rr ∈ lst then lst else lst ++ [rr])
  | _ => (false, lst)

/-- All records that a search passes are appended to a list. -/
def appendAll (rrl : List DnsRr) (name : Option Name) (type1 type2 : DnsType) (recurse : Bool)
    (lst : List DnsRr) : List DnsRr :=
  (rrlistApply rrAppendHandler ⟨some type1, some type2, some classIn, recurse⟩ rrl name lst).2

end Dns

end SipPerf
