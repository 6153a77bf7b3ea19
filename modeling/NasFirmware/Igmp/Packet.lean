import NasFirmware.Igmp.Plain
import NasFirmware.Lib.Received

/-!
# Packets

`igmpv3_accept` and `igmp_accept` read a packet from `recv_buf`. The number of bytes that were received is compared with
the length of an IP header, and not looked at again: where the message starts, how many records it has and how many
sources a record has is read from the packet.

`malloc` says for the place of each source in the buffer if there is memory for it. Queries and the messages of the
kernel change no group.
-/

namespace NasFirmware.Igmp

open ByteMem

def recvBufSize : ℕ := 2048

def grecType (b : UInt8) : Option RecordType :=
  if b = 1 then some .modeIsInclude
  else if b = 2 then some .modeIsExclude
  else if b = 3 then some .changeToInclude
  else if b = 4 then some .changeToExclude
  else if b = 5 then some .allowNewSources
  else if b = 6 then some .blockOldSources
  else none

section Buffer

variable (malloc : ℕ → Bool) (isLocal : Addr → Bool) (mem : Mem)

def grecNsrcs (c : ℕ) : ℕ := beU16 mem (c + 2)

def grecMca (c : ℕ) : Addr := beU32 mem (c + 4)

def grecSrc (c : ℕ) : List Reported :=
  (List.range (grecNsrcs mem c)).map fun i => ⟨beU32 mem (c + 8 + 4 * i), malloc (c + 8 + 4 * i)⟩

/-- The record at `c`, if its type is known. -/
def record (c : ℕ) : Option Record :=
  (grecType (mem c)).map fun type => ⟨type, grecMca mem c, grecSrc malloc mem c⟩

def nextGrec (c : ℕ) : ℕ := c + 8 + 4 * ((mem (c + 1)).toNat + grecNsrcs mem c)

/-- The loop over the records, of which there are `k` from `c` on. -/
def records : ℕ → ℕ → List Record
  | 0, _ => []
  | k + 1, c => (record malloc mem c).toList ++ records k (nextGrec mem c)

def iphdrlen : ℕ := (mem 0).toNat % 16 * 4

def saddr : Addr := beU32 mem 12

def daddr : Addr := beU32 mem 16

/-- Packets that are not looked at: not for a group, from the proxy itself (`chk_local`), or for printers. -/
def refused : Bool := !inMulticast (daddr mem) || isLocal (saddr mem) || daddr mem == allPrinter

def igmpMessage (h : ℕ) : Option Message :=
  if mem h = 0x12 ∨ mem h = 0x16 then some (.report (beU32 mem (h + 4)) (saddr mem))
  else if mem h = 0x22 then some (.reportV3 (saddr mem) (records malloc mem (beU16 mem (h + 6)) (h + 8)))
  else if mem h = 0x17 then some (.leave (beU32 mem (h + 4)) (saddr mem))
  else none

/-- What a packet of `recvlen` bytes asks for. -/
def message (recvlen : ℕ) : Option Message :=
  if recvlen < 20 then none
  else if refused isLocal mem then none
  else igmpMessage malloc mem (iphdrlen mem)

end Buffer

/-- `igmpv3_accept`, with the buffer. -/
def igmpv3AcceptBuf (cfg : Config) (malloc : ℕ → Bool) (isLocal : Addr → Bool) (st : State) (recvBuf : Mem)
    (recvlen : ℕ) : State :=
  match message malloc isLocal recvBuf recvlen with
  | none => st
  | some m => igmpv3Accept cfg st m

namespace Plain

/-- `igmp_accept`, with the buffer. Sources are counted only. -/
def igmpAcceptBuf (isLocal : Addr → Bool) (st : State) (recvBuf : Mem) (recvlen : ℕ) : State :=
  match message (fun _ => true) isLocal recvBuf recvlen with
  | none => st
  | some m => igmpAccept st m

def State.table (st : State) : Pool.Table maxMfctEntry Mcft × Pool.Table maxMbrEntry Addr × List (Fin maxMfctEntry) :=
  (st.mcftTbl, st.mbrTbl, st.mcpq)

end Plain

end NasFirmware.Igmp
