import Mathlib.Data.Multiset.AddSub
import Hostboot.Util.Machine

/-!
# A demand-paged block and its message handlers

`Block` of `src/kernel/block.C` maps a range of virtual pages.  A block with a
resource provider reads a page in when a task faults on it and writes a dirty
page out when it is removed.  The requests are messages to a task in user
space; `BlockReadMsgHdlr` and `BlockWriteMsgHdlr` (`src/kernel/blockmsghdlr.C`)
over `MessageHandler` (`src/kernel/msghandler.C`) keep what is outstanding.

A virtual page is known by its index in the block, which stands for its
page-aligned address; a physical page is known by its number, and `0` is no
page.  The block is page-aligned and not mapped to physical memory.  The lists of the
handlers are `Util::Locked::List`: `insert` adds at the head, and `find` and
`erase` take the first match from the head, the newest.  Everything here runs
under the lock of the VMM, so each call is one step.

Around the block the model keeps what its functions touch: the entries of the
hardware page table for the pages of the block, the messages the provider has
not answered, the free pages of the page manager, and the state of the tasks.
The permissions of the physical pages in the base block, the chain of blocks
and the counters for debug output are left out.

The last fields are not in the source.  They record what happened: which tasks
were deferred, resumed and ended, what a page contained when it was removed,
and what the provider was given.
-/

namespace Hostboot.Vmm

open Function (update)

structure ShadowPTE where
  /-- Physical page, in a field of 20 bits. -/
  page : Nat
  present : Bool
  readable : Bool
  writable : Bool
  executable : Bool
  /-- The dirty bit is maintained. -/
  trackWrite : Bool
  dirty : Bool
  allocateFromZero : Bool
  /-- LRU value, in a field of three bits. -/
  lastAccess : Nat
  deriving DecidableEq, Repr

/-- `VmmManager::PAGE_REMOVAL_OPS`. -/
inductive PageRemovalOp where
  | release
  | flush
  | evict
  deriving DecidableEq, Repr

/-- The messages of a block: `MSG_MM_RP_READ` and `MSG_MM_RP_WRITE`. -/
inductive MsgType where
  | read
  | write
  deriving DecidableEq, Repr

/-- `msg_t` as a message handler builds it. -/
structure Message where
  type : MsgType
  key : Nat
  data : Nat
  deriving DecidableEq, Repr

/-- `MessageHandler_Pending`. -/
structure Pending where
  key : Nat
  task : Option Nat
  deriving DecidableEq, Repr

structure TaskMsgNode where
  key : Nat
  msgCount : Nat
  deriving DecidableEq, Repr

structure PageAddrNode where
  key : Nat
  pageAddr : Nat
  deriving DecidableEq, Repr

/-- `MessageHandler::HandleResult`. -/
inductive HandleResult where
  | success
  | continueDefer
  | unhandledRc
  deriving DecidableEq, Repr

/-- Whether a task runs, waits for a message handler, or was ended. -/
inductive TaskState where
  | running
  | blockUserspace
  | ended
  deriving DecidableEq, Repr

/-- What happened to a task, and through which message handler. -/
inductive Event where
  | deferred (handler : MsgType) (task : Nat)
  | resumed (handler : MsgType) (task : Nat)
  | ended (handler : MsgType) (task : Nat)
  deriving DecidableEq, Repr

/-- The tasks as the message handlers see them. -/
structure Tasks where
  state : Nat → TaskState
  /-- What happened to the tasks, newest first. -/
  events : List Event

/-- A message handler defers a task. -/
def Tasks.defer (tasks : Tasks) (handler : MsgType) (t : Nat) : Tasks where
  state := update tasks.state t .blockUserspace
  events :=
    if tasks.state t = .running then .deferred handler t :: tasks.events else tasks.events

/-- A task goes back to the scheduler. -/
def Tasks.resume (tasks : Tasks) (handler : MsgType) (t : Nat) : Tasks where
  state := update tasks.state t .running
  events := .resumed handler t :: tasks.events

/-- `TaskManager::endTask`. -/
def Tasks.endTask (tasks : Tasks) (handler : MsgType) (t : Nat) : Tasks where
  state := update tasks.state t .ended
  events := .ended handler t :: tasks.events

/-- A page that went back to the page manager: the virtual page it was removed
from, its contents at the removal, and whether it was dirty. -/
structure Returned where
  key : Nat
  content : Nat
  dirty : Bool
  deriving DecidableEq, Repr

/-- A block, its message handlers, and what they touch. -/
structure Kernel where
  /-- `iv_baseAddr`, a page-aligned address. -/
  ivBaseAddr : Nat
  /-- `iv_size`, in pages. -/
  ivPages : Nat
  /-- `iv_ptes`. -/
  ivPtes : Nat → ShadowPTE
  /-- Whether the block has message handlers. -/
  ivMsgHdlrs : Bool
  /-- `iv_pending` of the read and of the write handler. -/
  ivPending : MsgType → List Pending
  /-- `iv_msgGrpList` of the write handler. -/
  ivMsgGrpList : List TaskMsgNode
  /-- `iv_va2paList` of the write handler. -/
  ivVa2paList : List PageAddrNode
  /-- The valid entries of the hardware page table: the physical page and
  whether it may be written. -/
  pageTable : Nat → Option (Nat × Bool)
  /-- The messages sent and not answered, oldest first. -/
  messages : List Message
  /-- The free pages of the page manager. -/
  freePages : Multiset Nat
  /-- The pages other users of the page manager have. -/
  otherPages : Multiset Nat
  tasks : Tasks
  /-- The contents of the physical pages. -/
  memory : Nat → Nat
  /-- The contents of a physical page when it was last removed. -/
  removed : Nat → Nat
  /-- Whether a virtual page was stored to since it was attached. -/
  modified : Nat → Bool
  /-- The pages that went back to the page manager. -/
  returned : List Returned
  /-- What the provider got in write messages it completed successfully. -/
  handed : List (Nat × Nat)
  /-- The requests the provider answered with an error.  A read leaves the list
  when a later read of the same virtual page succeeds. -/
  failed : List (MsgType × Nat)

/-- `ShadowPTE::setPageAddr`. -/
def ShadowPTE.setPage (pte : ShadowPTE) (page : Nat) : ShadowPTE :=
  { pte with page := page % 2 ^ 20 }

/-- Whether `Block::getPermission` answers `NO_ACCESS`. -/
def ShadowPTE.noAccess (pte : ShadowPTE) : Bool :=
  !pte.readable && !pte.executable && !pte.writable && !pte.allocateFromZero && !pte.trackWrite

/-- Whether a page is mapped so that it can be stored to. -/
def ShadowPTE.mapWritable (pte : ShadowPTE) : Bool :=
  !pte.executable && pte.writable && pte.dirty

namespace Kernel

/-! ## What the block uses -/

/-- Exchange one entry of the shadow page table. -/
def setPte (k : Kernel) (i : Nat) (pte : ShadowPTE) : Kernel :=
  { k with ivPtes := update k.ivPtes i pte }

/-- `PageTableManager::delEntry`. -/
def delEntry (k : Kernel) (i : Nat) : Kernel :=
  { k with pageTable := update k.pageTable i none }

/-- `PageTableManager::addEntry`: it asserts that a valid entry is not for
another page. -/
def addEntry (k : Kernel) (i page : Nat) (writable : Bool) : Option Kernel :=
  if (k.pageTable i).all (fun entry => entry.1 = page) then
    some { k with pageTable := update k.pageTable i (some (page, writable)) }
  else none

/-- `PageManager::allocatePage` when it gives the page `p`. -/
def allocatePage (k : Kernel) (p : Nat) : Kernel :=
  { k with freePages := k.freePages.erase p }

/-- `PageManager::freePage`, and the record of what goes back. -/
def freePage (k : Kernel) (p : Nat) (r : Returned) : Kernel :=
  { k with freePages := p ::ₘ k.freePages, returned := r :: k.returned }

/-- `MessageHandler::sendMessage`: one message for each outstanding key, and
one pending object for each call. -/
def sendMessage (k : Kernel) (type : MsgType) (key data : Nat) (task : Option Nat) : Kernel :=
  { k with
    tasks := match task with
      | some t => k.tasks.defer type t
      | none => k.tasks
    messages :=
      if (k.ivPending type).any (fun mhp => mhp.key = key) then k.messages
      else k.messages ++ [⟨type, key, data⟩]
    ivPending := update k.ivPending type (⟨key, task⟩ :: k.ivPending type) }

/-- `BlockWriteMsgHdlr::incMsgCount` on the list of the handler. -/
def incMsgCount (msgGrpList : List TaskMsgNode) (t : Nat) : List TaskMsgNode :=
  if msgGrpList.any (fun node => node.key = t) then
    msgGrpList.map fun node =>
      if node.key = t then { node with msgCount := node.msgCount + 1 } else node
  else ⟨t, 1⟩ :: msgGrpList

/-- `BlockWriteMsgHdlr::addVirtAddr`, and the record of the contents. -/
def addVirtAddr (k : Kernel) (key pageAddr : Nat) : Kernel :=
  { k with
    ivVa2paList := ⟨key, pageAddr⟩ :: k.ivVa2paList
    removed := update k.removed pageAddr (k.memory pageAddr) }

/-! ## Page faults -/

/-- The last part of `handlePageFault` and of `attachSPTE`: map a present
page. -/
def mapPage (k : Kernel) (i : Nat) : Option Kernel :=
  k.addEntry i (k.ivPtes i).page (k.ivPtes i).mapWritable

/-- The fault on a page that is not present, in a block with a provider.
`alloc` is what the page manager answers if it is asked. -/
def readFault (k : Kernel) (i : Nat) (task : Nat) (alloc : Option Nat) : Option Kernel :=
  if (k.ivPtes i).page = 0 then
    match alloc with
    | none => some k
    | some p =>
      let k := (k.allocatePage p).setPte i ((k.ivPtes i).setPage p)
      some (k.sendMessage .read i (k.ivPtes i).page (some task))
  else some (k.sendMessage .read i (k.ivPtes i).page (some task))

/-- The fault on a page that is not present, in a block without a provider. -/
def zeroFault (k : Kernel) (i : Nat) (alloc : Option Nat) : Option Kernel :=
  if (k.ivPtes i).allocateFromZero then
    match alloc with
    | none => some k
    | some p =>
      let k := { k.allocatePage p with memory := update k.memory p 0 }
      let pte := { (k.ivPtes i).setPage p with present := true }
      { k.setPte i pte with modified := update k.modified i false }.mapPage i
  else some k

/-- `Block::handlePageFault` on the page with index `i`. -/
def handlePageFault (k : Kernel) (task i : Nat) (store : Bool) (alloc : Option Nat) :
    Option Kernel :=
  let pte := k.ivPtes i
  if ¬ i < k.ivPages then some k
  else if pte.noAccess then some k
  else if store && !pte.writable then some k
  else
    let k := if store then k.setPte i { pte with dirty := true } else k
    if pte.present then k.mapPage i
    else if k.ivMsgHdlrs then k.readFault i task alloc
    else k.zeroFault i alloc

/-! ## Removing pages -/

/-- `Block::releaseSPTE`. -/
def releaseSPTE (k : Kernel) (i : Nat) : Kernel :=
  { k.setPte i { k.ivPtes i with dirty := false, present := false, page := 0 } with
    modified := update k.modified i false }

/-- One round of the loop of `removePages`. -/
def removePage (op : PageRemovalOp) (task : Option Nat) (k : Kernel) (i : Nat) : Kernel :=
  let pte := k.ivPtes i
  if pte.present && pte.page ≠ 0 then
    let k := k.delEntry i
    if pte.dirty && pte.trackWrite && k.ivMsgHdlrs then
      let k := k.releaseSPTE i
      let k := { k with ivMsgGrpList := match task with
        | some t => incMsgCount k.ivMsgGrpList t
        | none => k.ivMsgGrpList }
      (k.addVirtAddr i pte.page).sendMessage .write i pte.page task
    else if pte.dirty && !pte.trackWrite && op = .evict then k
    else if op ≠ .flush then
      (k.releaseSPTE i).freePage pte.page
        ⟨i, k.memory pte.page, pte.dirty || k.modified i⟩
    else k
  else k

/-- `ALIGN_PAGE` on a 64-bit word. -/
def alignPage64 (u : Nat) : Nat := add64 u (PAGESIZE - 1) / PAGESIZE * PAGESIZE

/-- The pages `removePages` works on: none when the range does not lie in the
block. -/
def removalRange (k : Kernel) (vaddr size : Nat) : List Nat :=
  let alignedVa := alignPageDown vaddr
  let alignedSize := alignPage64 (add64 size (vaddr % PAGESIZE))
  let finish := add64 alignedVa alignedSize
  if alignedVa < k.ivBaseAddr ∨ k.ivBaseAddr + k.ivPages * PAGESIZE ≤ alignedVa then []
  else if finish > k.ivBaseAddr + k.ivPages * PAGESIZE then []
  else List.range' ((alignedVa - k.ivBaseAddr) / PAGESIZE) ((finish - alignedVa) / PAGESIZE)

/-- `Block::removePages`. -/
def removePages (k : Kernel) (op : PageRemovalOp) (vaddr size : Nat) (task : Option Nat) :
    Kernel :=
  (k.removalRange vaddr size).foldl (removePage op task) k

/-- One round of the loop of `castOutPages`. -/
def castOutPage (rwConstraint roConstraint : Nat) (k : Kernel) (i : Nat) : Kernel :=
  let pte := k.ivPtes i
  if pte.present && pte.page ≠ 0 then
    if pte.writable then
      if pte.lastAccess > rwConstraint && pte.trackWrite then removePage .evict none k i else k
    else if pte.lastAccess > roConstraint then removePage .evict none k i
    else k
  else k

/-- `Block::castOutPages`, with the constraints of the default configuration. -/
def castOutPages (k : Kernel) (critical : Bool) : Kernel :=
  let rwConstraint := if critical then 2 else 5
  let roConstraint := if critical then 1 else 6
  (List.range k.ivPages).foldl (castOutPage rwConstraint roConstraint) k

/-- `Block::updateRefCount`. -/
def updateRefCount (k : Kernel) (i : Nat) (referenced : Bool) : Kernel :=
  let pte := k.ivPtes i
  if ¬ i < k.ivPages then k
  else if referenced then k.setPte i { pte with lastAccess := 0 }
  else if pte.lastAccess < 7 then k.setPte i { pte with lastAccess := pte.lastAccess + 1 }
  else k

/-! ## Responses -/

/-- `Block::attachSPTE`. -/
def attachSPTE (k : Kernel) (i : Nat) : Option Kernel :=
  (k.setPte i { k.ivPtes i with present := true }).mapPage i

/-- `BlockReadMsgHdlr::handleResponse`. -/
def handleReadResponse (k : Kernel) (key rc : Nat) : Option (HandleResult × Kernel) :=
  if rc ≠ 0 then some (.unhandledRc, k)
  else (k.attachSPTE key).map fun k => (.success, k)

/-- The middle part of `BlockWriteMsgHdlr::handleResponse`: the newest page of
the key goes back to the page manager. -/
def completeRemoval (k : Kernel) (key : Nat) : HandleResult × Kernel :=
  match k.ivVa2paList.find? (fun node => node.key = key) with
  | some node =>
    (.success,
      { k.freePage node.pageAddr ⟨key, k.removed node.pageAddr, true⟩ with
        ivVa2paList := k.ivVa2paList.erase node })
  | none => (.unhandledRc, k)

/-- The last part of `BlockWriteMsgHdlr::handleResponse`, on the list of the
handler: count the message for its task. -/
def countMessage (result : HandleResult) (msgGrpList : List TaskMsgNode) (task : Option Nat) :
    HandleResult × List TaskMsgNode :=
  match task with
  | none => (result, msgGrpList)
  | some t =>
    match msgGrpList.find? (fun node => node.key = t) with
    | none => (result, msgGrpList)
    | some node =>
      if node.msgCount = 1 then (.success, msgGrpList.erase node)
      else
        (.continueDefer, msgGrpList.map fun n =>
          if n.key = t then { n with msgCount := n.msgCount - 1 } else n)

/-- `BlockWriteMsgHdlr::handleResponse`.  An error is left to the caller. -/
def handleWriteResponse (k : Kernel) (key rc : Nat) (task : Option Nat) :
    HandleResult × Kernel :=
  if rc ≠ 0 then (.unhandledRc, k)
  else
    let (result, k) := k.completeRemoval key
    let (result, msgGrpList) := countMessage result k.ivMsgGrpList task
    (result, { k with ivMsgGrpList := msgGrpList })

/-- `handleResponse` of the handler a message belongs to. -/
def handleResponse (k : Kernel) (type : MsgType) (key rc : Nat) (task : Option Nat) :
    Option (HandleResult × Kernel) :=
  match type with
  | .read => k.handleReadResponse key rc
  | .write => some (k.handleWriteResponse key rc task)

/-- The part of `recvMessage` that acts on the result for one deferred task. -/
def settleTask (tasks : Tasks) (type : MsgType) (rc : Nat) (result : HandleResult)
    (task : Option Nat) : Tasks :=
  match task with
  | none => tasks
  | some t =>
    match result with
    | .success => tasks.resume type t
    | .unhandledRc => if rc = 0 then tasks.resume type t else tasks.endTask type t
    | .continueDefer => tasks

/-- The part of `recvMessage` after `handleResponse`, for one pending object. -/
def settle (k : Kernel) (type : MsgType) (rc : Nat) (result : HandleResult) (mhp : Pending) :
    Kernel :=
  { k with
    ivPending := update k.ivPending type ((k.ivPending type).erase mhp)
    tasks := settleTask k.tasks type rc result mhp.task }

/-- One round of the loop of `recvMessage`, for one pending object. -/
def recvPending (k : Kernel) (type : MsgType) (key rc : Nat) (mhp : Pending) : Option Kernel :=
  (k.handleResponse type key rc mhp.task).map fun (result, k) => k.settle type rc result mhp

/-- The loop of `recvMessage`: the pending objects of the key, newest first.
The source ends tasks after the loop. -/
def recvLoop (type : MsgType) (key rc : Nat) : List Pending → Kernel → Option Kernel
  | [], k => some k
  | mhp :: rest, k => (k.recvPending type key rc mhp).bind (recvLoop type key rc rest)

/-- `MessageHandler::recvMessage`. -/
def recvMessage (k : Kernel) (type : MsgType) (key rc : Nat) : Option Kernel :=
  recvLoop type key rc ((k.ivPending type).filter fun mhp => mhp.key = key) k

/-! ## Steps -/

/-- The empty block: the permissions are given, and nothing is present. -/
def init (baseAddr pages : Nat) (msgHdlrs : Bool) (permissions : Nat → ShadowPTE)
    (free : Multiset Nat) (memory : Nat → Nat) : Kernel where
  ivBaseAddr := baseAddr
  ivPages := pages
  ivPtes := fun i => { permissions i with page := 0, present := false, dirty := false }
  ivMsgHdlrs := msgHdlrs
  ivPending := fun _ => []
  ivMsgGrpList := []
  ivVa2paList := []
  pageTable := fun _ => none
  messages := []
  freePages := free
  otherPages := 0
  tasks := ⟨fun _ => .running, []⟩
  memory := memory
  removed := fun _ => 0
  modified := fun _ => false
  returned := []
  handed := []
  failed := []

end Kernel

/-- What can happen to a block. -/
inductive Op where
  /-- A running task faults; `alloc` is what the page manager answers. -/
  | fault (task i : Nat) (store : Bool) (alloc : Option Nat)
  /-- A store to a page that is mapped writable. -/
  | store (i content : Nat)
  /-- `removePages`, for a task that waits or for none. -/
  | removePages (op : PageRemovalOp) (vaddr size : Nat) (task : Option Nat)
  | castOutPages (critical : Bool)
  /-- The page table drops an entry and counts the reference. -/
  | dropEntry (i : Nat) (referenced : Bool)
  /-- The provider answers the message at a position with a return code.  For
  a read it has written `content` to the page. -/
  | respond (position rc content : Nat)
  /-- Another user of the page manager allocates, frees or writes a page. -/
  | otherAllocate (p : Nat)
  | otherFree (p : Nat)
  | otherWrite (p content : Nat)

/-- The rules of the surroundings: a task acts only while it runs, the page
manager gives a free page, a store goes to a page mapped writable, and only a
message that was sent is answered. -/
def Op.Allowed (k : Kernel) : Op → Prop
  | .fault task _ _ alloc =>
    k.tasks.state task = .running ∧ ∀ p, alloc = some p → p ∈ k.freePages
  | .store i _ => ∃ p, k.pageTable i = some (p, true)
  | .removePages _ _ _ task => ∀ t, task = some t → k.tasks.state t = .running
  | .castOutPages _ => True
  | .dropEntry _ _ => True
  | .respond position _ _ => position < k.messages.length
  | .otherAllocate p => p ∈ k.freePages
  | .otherFree p => p ∈ k.otherPages
  | .otherWrite p _ => p ∈ k.freePages + k.otherPages

namespace Kernel

/-- The provider has done its work: it filled the page of a read, or it was
given the contents of the page of a write. -/
def provide (k : Kernel) (m : Message) (rc content : Nat) : Kernel :=
  { k with
    memory := match m.type with
      | .read => update k.memory m.data content
      | .write => k.memory
    handed :=
      if m.type = .write ∧ rc = 0 then (m.key, k.memory m.data) :: k.handed else k.handed
    failed :=
      if rc = 0 then k.failed.filter (fun x => x ≠ (.read, m.key) ∨ m.type = .write)
      else (m.type, m.key) :: k.failed }

/-- One step. -/
def exec (k : Kernel) : Op → Option Kernel
  | .fault task i store alloc => k.handlePageFault task i store alloc
  | .store i content =>
    match k.pageTable i with
    | some (p, true) =>
      some { k with
        memory := update k.memory p content
        modified := update k.modified i true }
    | _ => some k
  | .removePages op vaddr size task => some (k.removePages op vaddr size task)
  | .castOutPages critical => some (k.castOutPages critical)
  | .dropEntry i referenced => some ((k.delEntry i).updateRefCount i referenced)
  | .respond position rc content =>
    match k.messages[position]? with
    | none => some k
    | some m =>
      let k := { k.provide m rc content with messages := k.messages.eraseIdx position }
      k.recvMessage m.type m.key rc
  | .otherAllocate p =>
    some { k with freePages := k.freePages.erase p, otherPages := p ::ₘ k.otherPages }
  | .otherFree p =>
    some { k with freePages := p ::ₘ k.freePages, otherPages := k.otherPages.erase p }
  | .otherWrite p content => some { k with memory := update k.memory p content }

end Kernel

/-- An allowed step that does not trip an assert. -/
def Step (k : Kernel) (op : Op) (k' : Kernel) : Prop := op.Allowed k ∧ k.exec op = some k'

end Hostboot.Vmm
