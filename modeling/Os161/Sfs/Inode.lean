import Os161.Sfs.Bmap

/-!
# Loading and releasing vnodes

`kern/fs/sfs/sfs_inode.c`, and `vnode_incref` and `vnode_decref` of `kern/vfs/vnode.c`, which call
`sfs_reclaim` when the last reference goes. Errors of a reclaim are reported on the console only.
-/

namespace Os161

namespace Sfs

open Prog

/-- `sfs_sync_inode`. -/
def syncInode (ino : UInt32) : Sk Unit := do
  let sv ← getVnode ino
  if sv.svDirty then do
    writeblock sv.svIno sv.svI.toBlock
    modify fun c => c.setVnode ino fun sv => { sv with svDirty := false }
  else pure ()

/-- `sfs_reclaim`. -/
def reclaim (ino : UInt32) : Sk Unit := do
  let sv ← getVnode ino
  if sv.vnRefcount ≠ 1 then do
    -- somebody has picked up the vnode; consume the reference
    kassert (1 < sv.vnRefcount) .refcount
    modify fun c => c.setVnode ino fun sv => { sv with vnRefcount := sv.vnRefcount - 1 }
    fail .ebusy
  else do
    when (sv.svI.sfiLinkcount = 0) (itrunc ino 0)
    syncInode ino
    let sv ← getVnode ino
    when (sv.svI.sfiLinkcount = 0) (bfree sv.svIno)
    let s ← get
    if s.sfsVnodes.any fun sv => sv.svIno = ino then do
      modify fun c => { c with sfsVnodes := c.sfsVnodes.eraseP fun sv => sv.svIno = ino }
      kassert (sv.vnRefcount = 1) .refcount
    else panic (.notInPool ino)

/-- `VOP_INCREF`. -/
def vopIncref (ino : UInt32) : Sk Unit := do
  let _ ← getVnode ino
  modify fun c => c.setVnode ino fun sv => { sv with vnRefcount := sv.vnRefcount + 1 }

/-- `VOP_DECREF`. -/
def vopDecref (ino : UInt32) : Sk Unit := do
  let sv ← getVnode ino
  kassert (0 < sv.vnRefcount) .refcount
  if 1 < sv.vnRefcount then
    modify fun c => c.setVnode ino fun sv => { sv with vnRefcount := sv.vnRefcount - 1 }
  else do
    let _ ← trying (reclaim ino)
    pure ()

/-- The search of `sfs_loadvnode`. -/
def findVnode (ino : UInt32) : List SfsVnode → Sk Bool
  | [] => pure false
  | sv :: svs => do
      let used ← bused sv.svIno
      if used then
        if sv.svIno = ino then pure true else findVnode ino svs
      else panic (.foundUnallocated sv.svIno)

/-- `sfs_loadvnode` for an inode that is not loaded. -/
def readVnode (ino : UInt32) (forcetype : UInt16) : Sk UInt32 := do
  let ok ← ask World.memory
  if ok then do
    let used ← bused ino
    if used then do
      let b ← readblock ino
      let svI := Dinode.ofBlock b
      -- set for a new object, whose block has been cleared
      let svI ← if forcetype ≠ sfsTypeInval then do
          kassert (svI.sfiType = sfsTypeInval) .forcetypeFresh
          pure { svI with sfiType := forcetype }
        else pure svI
      if svI.sfiType = sfsTypeFile ∨ svI.sfiType = sfsTypeDir then do
        let ok ← ask World.memory
        if ok then do
          modify fun c => { c with
            sfsVnodes := c.sfsVnodes ++ [⟨ino, svI, forcetype ≠ sfsTypeInval, 1⟩] }
          pure ino
        else fail .enomem
      else panic (.invalidType ino svI.sfiType)
    else panic (.loadUnallocated ino)
  else fail .enomem

/-- `sfs_loadvnode`. -/
def loadvnode (ino : UInt32) (forcetype : UInt16) : Sk UInt32 := do
  let s ← get
  let found ← findVnode ino s.sfsVnodes
  if found then do
    kassert (forcetype = sfsTypeInval) .forcetypeLoaded
    vopIncref ino
    pure ino
  else readVnode ino forcetype

/-- `sfs_makeobj`. -/
def makeobj (type : UInt16) : Sk UInt32 := do
  let ino ← balloc
  let r ← trying (loadvnode ino type)
  match r with
  | .ok ino => pure ino
  | .error e => do
      bfree ino
      fail e

/-- `sfs_getroot`. -/
def getroot : Sk UInt32 := do
  let ino ← loadvnode sfsRootdirIno sfsTypeInval
  let sv ← getVnode ino
  if sv.svI.sfiType ≠ sfsTypeDir then fail .einval else pure ino

end Sfs

end Os161
