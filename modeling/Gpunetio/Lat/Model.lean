import Gpunetio.Cq.Collapsed

/-!
# The latency test

Two processes send each other messages of one WQE, in turn. Each runs the kernel `write_lat` with
one thread, once or several times in a row on the same buffers. A message is the last byte of the
buffer, the one the kernel stores and polls for; the other bytes are never written. The kernel posts
without a look at the CQ: a slot, and the byte in `local_post_buf`, are used again at once. Only
after the loop it polls the collapsed CQ, which returns one completion before that of the last WQE.

* `Bench`: what both processes are started with;
* `Party`: one process with the send side of its NIC; `Party.pollCq`: a look of the poll of the CQ;
  `Party.writeLat`: a step of its thread;
* `Party.fetch`, `Party.deliver`, `Party.complete`: its NIC reads the payload of the next WQE,
  writes it to the memory of the peer, and reports it;
* `init`, **`Step`**;
* `sent`, `polled`, `landed`: messages counted over all launches.
-/

namespace Gpunetio.Lat

/-- The iterations of a launch, the number of launches, of which the sample has two, one to warm up,
and the depth of the CQ, which is that of a creation. -/
structure Bench where
  numIters : ℕ
  launches : ℕ
  cqeNum : ℕ
  cqeNum_le : cqeNum ≤ 2 ^ 15

/-- Where the thread stands: at the condition of the loop, in the poll for message `rcnt`, behind
the fence, behind the store of message `scnt`, in the poll of the CQ after the loop, or at the end.
-/
inductive Pc
  | test
  | poll
  | send
  | submit
  | drain
  | done
deriving DecidableEq, Repr

/-- One process. `submitted`, `fetched` and `completed` count its WQEs over all launches, so that
`submitted` is `wqe_idx` and `sq_wqe_pi`, and `flight` are the payloads read and not written yet,
oldest first. -/
structure Party where
  launch : ℕ
  scnt : ℕ
  rcnt : ℕ
  pc : Pc
  localPostBuf : BitVec 8
  localPollBuf : BitVec 8
  submitted : ℕ
  fetched : ℕ
  flight : List (BitVec 8)
  completed : ℕ
  cqeCi : ℕ
deriving DecidableEq, Repr

namespace Party

/-- The CQE: that of the last WQE completed, or as the CQ is made. -/
def cqe (p : Party) : Cqe64 :=
  if p.completed = 0 then ⟨0#16, 0#8, cqeInvalid <<< 4⟩
  else ⟨BitVec.ofNat 16 (p.completed - 1), 0#8, 0#8⟩

/-- One look of `poll_cq_collapsed_at` at index `wqe_idx - 1`: the new `cqe_ci`, if the loop ends. A
`wqe_idx` of 0 gives the index `2 ^ 64 - 1`, which `sq_wqe_pi` never reaches. -/
def pollCq (cqeNum : ℕ) (p : Party) : Option ℕ :=
  if p.submitted = 0 then none
  else if p.submitted - 1 < p.cqeCi then some p.cqeCi
  else (collapsedCqe cqeNum (p.submitted - 1) p.cqeCi p.cqe).map fun r => max p.cqeCi r.2

/-- A step of the thread of `write_lat`; a look of one of the two polls that fails leaves it there.
-/
def writeLat (cfg : Bench) (isClient : Bool) (p : Party) : Party :=
  match p.pc with
  | .test =>
    if p.scnt < cfg.numIters ∨ p.rcnt < cfg.numIters then
      if p.rcnt < cfg.numIters ∧ (1 ≤ p.scnt ∨ isClient = true) then
        { p with rcnt := p.rcnt + 1, pc := .poll }
      else { p with pc := .send }
    else { p with pc := .drain }
  | .poll => if p.localPollBuf = BitVec.ofNat 8 p.rcnt then { p with pc := .send } else p
  | .send =>
    if p.scnt < cfg.numIters then
      { p with scnt := p.scnt + 1, localPostBuf := BitVec.ofNat 8 (p.scnt + 1), pc := .submit }
    else { p with pc := .test }
  | .submit => { p with submitted := p.submitted + 1, pc := .test }
  | .drain =>
    match p.pollCq cfg.cqeNum with
    | some cqeCi => { p with cqeCi := cqeCi, pc := .done }
    | none => p
  | .done => p

/-- The next launch of the kernel, which begins to count again. -/
def relaunch (p : Party) : Party :=
  { p with launch := p.launch + 1, scnt := 0, rcnt := 0, pc := .test }

/-- The NIC reads the payload of its next WQE. -/
def fetch (p : Party) : Party :=
  { p with fetched := p.fetched + 1, flight := p.flight ++ [p.localPostBuf] }

/-- The oldest payload has been written to the memory of the peer. -/
def deliver (p : Party) : Party := { p with flight := p.flight.tail }

/-- The CQE of the next WQE. -/
def complete (p : Party) : Party := { p with completed := p.completed + 1 }

/-- The messages stored, over all launches. -/
def sent (numIters : ℕ) (p : Party) : ℕ := p.launch * numIters + p.scnt

/-- The messages polled for with success. -/
def polled (numIters : ℕ) (p : Party) : ℕ :=
  p.launch * numIters + p.rcnt - if p.pc = .poll then 1 else 0

/-- The messages written to the memory of the peer. -/
def landed (p : Party) : ℕ := p.fetched - p.flight.length

/-- At the end of its last launch. -/
def Finished (launches : ℕ) (p : Party) : Prop := p.pc = .done ∧ launches ≤ p.launch + 1

end Party

/-- Both processes before their first launch, the client at `true`, the buffers set to zero. -/
def init (_ : Bool) : Party := ⟨0, 0, 0, .test, 0, 0, 0, 0, [], 0, 0⟩

/-- **One step**: of a thread or of a NIC; a CQE follows the payload. -/
inductive Step (cfg : Bench) : (Bool → Party) → (Bool → Party) → Prop
  | exec {s} (b : Bool) :
      Step cfg s (Function.update s b ((s b).writeLat cfg b))
  | relaunch {s} (b : Bool) (hd : (s b).pc = .done) (hl : (s b).launch + 1 < cfg.launches) :
      Step cfg s (Function.update s b (s b).relaunch)
  | fetch {s} (b : Bool) (hf : (s b).fetched < (s b).submitted) :
      Step cfg s (Function.update s b (s b).fetch)
  | deliver {s} (b : Bool) (x : BitVec 8) (hx : (s b).flight.head? = some x) :
      Step cfg s (Function.update (Function.update s b (s b).deliver) (!b)
        { s (!b) with localPollBuf := x })
  | complete {s} (b : Bool) (hc : (s b).completed < (s b).landed) :
      Step cfg s (Function.update s b (s b).complete)

end Gpunetio.Lat
