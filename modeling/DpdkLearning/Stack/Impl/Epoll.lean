import DpdkLearning.Stack.Impl.Tables

/-!
This module contains the event poll: its creation, the registry of sockets, the callback that the
packet side calls and the call that hands the ready items to the application.
-/

open Lib

namespace NgStack

namespace Eventpoll

/--
`RB_FIND`
-/
def find (ep : Eventpoll) (sockfd : Int) : Option (Addr × Epitem) :=
  ep.rbr.find? (fun epi => epi.sockfd == sockfd)

def registered (ep : Eventpoll) (a : Addr) : Bool :=
  (ep.rbr.get? a).isSome

end Eventpoll

/-
The function ends without a return statement when it makes an item ready. No caller looks at the
value.
-/
def epollEventCallback (ep : Option Eventpoll) (sockid : Int) (event : UInt32)
    : Except Halt (Int × Eventpoll) :=
  match ep with
  | none => .error .nullPointer
  | some ep =>
    match ep.find sockid with
    | none => .ok (-1, ep)
    | some (a, epi) =>
      if epi.rdy ≠ 0 then
        .ok (1, { ep with
          rbr := ep.rbr.modify a (fun epi => { epi with event.events := epi.event.events ||| event }) })
      -- `LIST_INSERT_HEAD` also writes into the item that was first so far.
      else if ep.rdlist.head?.all ep.registered then
        .ok (0, { ep with
          rbr := ep.rbr.modify a (fun epi => { epi with rdy := 1 })
          rdlist := a :: ep.rdlist
          rdnum := ep.rdnum + 1 })
      else
        .error .wildPointer

def nepollCreate (env : Env) (s : Stack) (size : Int) : Except Halt (Int × Stack) :=
  if size ≤ 0 then
    .ok (-1, s)
  else
    let (epfd, fdTable) := getFdFrombitmap s.fdTable
    if !env.rteMalloc 0 then
      .ok (-1, { s with fdTable := setFdFrombitmap fdTable epfd })
    else
      let ep := { env.staleEventpoll with
        fd := epfd
        rbcnt := 0
        rbr := .empty
        rdlist := [] }
      -- `mtx`, `cdmtx`, `cond` and `lock` in this order
      if env.pthreadInit 0 && env.pthreadInit 1 && env.pthreadInit 2 && env.pthreadInit 3 then
        .ok (epfd, { s with fdTable, table.ep := some ep })
      -- What fails here is followed by `free` on memory from `rte_malloc`.
      else
        .error .aborted

def nepollCtl (env : Env) (s : Stack) (epfd op sockid : Int) (event : Option EpollEvent)
    : Except Halt (Int × Stack) :=
  match getHostinfoFromfd s epfd with
  | none => .ok (-1, s)
  | some hostinfo =>
    if event.isNone && op != epollCtlDel then
      .ok (-1, s)
    else
      match hostinfo.asEp with
      | .error e => .error e
      | .ok ep =>
        if op = epollCtlAdd then
          match ep.find sockid with
          | some _ => .ok (-1, s)
          | none =>
            if !env.rteMalloc 0 then
              .ok (-1, s)
            else
              let epi := { env.staleEpitem with sockfd := sockid, event := event.getD default }
              .ok (0, s.setEp { ep with rbr := ep.rbr.add epi, rbcnt := ep.rbcnt + 1 })
        else if op = epollCtlDel then
          match ep.find sockid with
          | none => .ok (-1, s)
          -- `free(epi)` is taken to come back, as the callers expect. `Registry` has what it does to memory from
          -- `rte_malloc`.
          | some (a, _) =>
            .ok (0, s.setEp { ep with rbr := ep.rbr.remove a, rbcnt := ep.rbcnt - 1 })
        else if op = epollCtlMod then
          match ep.find sockid with
          | none => .ok (-1, s)
          | some (a, _) =>
            let events := (event.getD default).events ||| (epollerr ||| epollhup)
            .ok (0, s.setEp { ep with
              rbr := ep.rbr.modify a (fun epi => { epi with event.events := events }) })
        else
          .ok (0, s)

/--
The loop of `nepoll_wait` that takes up to `num` items off the ready list.
-/
def nepollWaitPop (ep : Eventpoll) (num : Int) : List Addr → Except Halt (Eventpoll × List EpollEvent)
  | [] => .ok (ep, [])
  | a :: rest =>
    if num = 0 then
      .ok (ep, [])
    else
      match ep.rbr.get? a with
      | none => .error .wildPointer
      | some epi =>
        -- `LIST_REMOVE` also writes into the next item.
        if rest.head?.all ep.registered then
          let ep := { ep with
            rbr := ep.rbr.modify a (fun epi => { epi with rdy := 0 })
            rdlist := rest
            rdnum := ep.rdnum - 1 }
          match nepollWaitPop ep (num - 1) rest with
          | .error e => .error e
          | .ok (ep, events) => .ok (ep, epi.event :: events)
        else
          .error .wildPointer

/--
A wait with a timeout comes back once it has run out; one without, only when an item is ready.
-/
def nepollWait (env : Env) (s : Stack) (epfd maxevents timeout : Int)
    : Except Halt (Int × List EpollEvent × Stack) :=
  match getHostinfoFromfd s epfd with
  | none => .ok (-1, [], s)
  | some hostinfo =>
    if maxevents ≤ 0 then
      .ok (-1, [], s)
    else
      match hostinfo.asEp with
      | .error e => .error e
      | .ok ep =>
        if ep.rdnum = 0 && timeout < 0 then
          .error .blocked
        else if ep.rdnum = 0 && 0 < timeout && !env.pthreadCondTimedwait then
          .ok (-1, [], s)
        else
          let num := if maxevents < ep.rdnum then maxevents else ep.rdnum
          match nepollWaitPop ep num ep.rdlist with
          | .error e => .error e
          | .ok (ep, events) => .ok (events.length, events, s.setEp ep)

end NgStack
