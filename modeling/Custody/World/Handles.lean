import Custody.World.Destruction

/-! What a program does with its handles: it watches allocations, moves handles
between variables, and lets them go. A handle that a guard borrows through is not
moved and not let go. -/

namespace Custody

namespace World

/-- One more handle watches record `r`: the handle. Refused if the record has no
slot left; nothing changes then. -/
def watch (w : World) (r : RecordId) : Except HeapRefusal Soft × World :=
  match w.records[r]? with
  | none => (.ok none, w)
  | some rec =>
    if rec.handles = 0 then (.ok none, w)
    else
      match rec.nextTicket with
      | .error e => (.error e, w)
      | .ok ticket =>
        let v := w.modifyRecord r fun rec => rec.enrol.acquire
        (.ok (some ⟨r, ticket⟩), v.noteRegistered r ticket)

/-- Watches record `r` with the handle in a loose place, which must be empty. -/
def attach (w : World) (r : RecordId) (p : SoftPlace) : Except HeapRefusal Unit × World :=
  if p.isLoose && w.soft? p = some none then
    match w.watch r with
    | (.error e, v) => (.error e, v)
    | (.ok s, v) => (.ok (), v.setSoft p s)
  else (.ok (), w)

/-- A new scan of a record's range, or of nothing; its number. -/
def newScan (w : World) (r : Option RecordId) (i : UInt64) : Except HeapRefusal Nat × World :=
  match r with
  | none => (.ok w.scans.size, { w with scans := w.scans.push ⟨none, .origin⟩ })
  | some r =>
    match w.watch r with
    | (.error e, v) => (.error e, v)
    | (.ok s, v) =>
      let scan := ⟨s, v.positionIn s i⟩
      (.ok v.scans.size, { v with scans := v.scans.push scan })

/-- A new walk over a table, at a bucket and without a node; its number. -/
def newWalk (w : World) (r : Option RecordId) (i : UInt64) : Except HeapRefusal Nat × World :=
  match r with
  | none => (.ok w.walks.size, { w with walks := w.walks.push ⟨none, ⟨none, .origin⟩⟩ })
  | some r =>
    match w.watch r with
    | (.error e, v) => (.error e, v)
    | (.ok s, v) =>
      let walk := ⟨none, ⟨s, v.positionIn s i⟩⟩
      (.ok v.walks.size, { v with walks := v.walks.push walk })

/-- Exchanges two owners. -/
def swapOwners (w : World) (i j : Nat) : World :=
  match w.owner? i, w.owner? j with
  | some a, some b =>
    if w.isLent (.owner i) || w.isLent (.owner j) then w else (w.setOwner i b).setOwner j a
  | _, _ => w

/-- Exchanges two observing handles. -/
def swapSofts (w : World) (p q : SoftPlace) : World :=
  match w.soft? p, w.soft? q with
  | some a, some b =>
    if p.isLoose && q.isLoose && !w.isLent (.soft p) && !w.isLent (.soft q) then
      (w.setSoft p b).setSoft q a
    else w
  | _, _ => w

/-- Lets an owner go; its variable is left empty. -/
def discardOwner (w : World) (i : Nat) : World :=
  if w.isLent (.owner i) then w
  else
    let o := w.owner i
    (w.setOwner i none).schedule [.dropOwner o]

/-- Lets an observing handle go; its variable is left empty. -/
def discardSoft (w : World) (p : SoftPlace) : World :=
  if w.isLent (.soft p) then w
  else
    let s := w.soft p
    (w.vacate p).schedule [.dropSoft s]

/-- Destroys what an owner holds and leaves the owner empty. Refused, with nothing
changed, while the object is borrowed. -/
def resetOwner (w : World) (i : Nat) : Except AccessRefusal Unit × World :=
  match w.owner i with
  | none => (.ok (), w)
  | some r =>
    if w.isBorrowed r then (.error .destroyedWhileBorrowed, w)
    else (.ok (), ((w.setOwner i none).schedule [.forget r]).demolish r)

/-- Destroys a value that never got a place. -/
def scrap (w : World) (s : Seed) : World := w.schedule [.dropItem s.item]

/-- Destroys a node that never got a place, with the handles in it. These are in variables,
which are left empty. -/
def scrapNode (w : World) (v : Int64) (f : Finalizer) (i : Nat) (p : SoftPlace) : World :=
  if p.isLoose && !w.isLent (.owner i) && !w.isLent (.soft p) then
    ((w.setOwner i none).vacate p).schedule [.dropItem (.node v f (w.owner i) (w.soft p))]
  else w

end World

end Custody
