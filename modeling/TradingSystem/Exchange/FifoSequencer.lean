import TradingSystem.Lib.Run
import TradingSystem.Lib.StableSort
import TradingSystem.Exchange.Messages

/-!
# `FifoSequencer`: the requests of a round in the order of their receive times

`exchange/fifo_sequencer.hpp`. The order server adds the requests it reads, and at the end of a round
they are sorted by the time their data was received and written to the queue of the engine. Requests
read from one socket in a round have one receive time.

`std::sort` is a parameter, of which only what the standard says is assumed: it returns some
permutation that is sorted by `operator<` (`Sorts`). It need not be stable.
-/

namespace TradingSystem

def maxPendingRequests : Nat := 1024

structure RecvTimeClientRequest where
  recvTime : Nanos
  request : MEClientRequest
  deriving DecidableEq

/-- `operator<`. -/
instance : LT RecvTimeClientRequest := ⟨fun a b => a.recvTime < b.recvTime⟩

structure FifoSequencer where
  /-- what went into the queue of the engine, oldest first -/
  incomingRequest : List MEClientRequest
  /-- the entries below `pending_size_` -/
  pendingClientRequests : List RecvTimeClientRequest

namespace FifoSequencer

def init : FifoSequencer := ⟨[], []⟩

def sequenceAndPublish (sort : List RecvTimeClientRequest → List RecvTimeClientRequest)
    (s : FifoSequencer) : FifoSequencer :=
  if s.pendingClientRequests.length = 0 then s
  else
    { incomingRequest :=
        s.incomingRequest ++ (sort s.pendingClientRequests).map RecvTimeClientRequest.request
      pendingClientRequests := [] }

def addClientRequest (s : FifoSequencer) (rxTime : Nanos) (request : MEClientRequest) :
    Except Fault FifoSequencer :=
  if s.pendingClientRequests.length < maxPendingRequests then
    .ok { s with pendingClientRequests := s.pendingClientRequests ++ [⟨rxTime, request⟩] }
  else .error .assertion

/-- Add requests one after the other. -/
def addAll (s : FifoSequencer) (added : List RecvTimeClientRequest) : Except Fault FifoSequencer :=
  added.foldlM (fun s q => s.addClientRequest q.recvTime q.request) s

/-- What the standard says of `std::sort`. -/
def Sorts (sort : List RecvTimeClientRequest → List RecvTimeClientRequest) : Prop :=
  ∀ l, (sort l).Perm l ∧ (sort l).Pairwise fun a b => ¬ b < a

/-- **First in, first out**: each request that was added is published once, by ascending receive times,
and those of equal times in the order they were added. -/
def Fifo (added : List RecvTimeClientRequest) (published : List MEClientRequest) : Prop :=
  ∃ order, StablySorted (· ≤ ·) RecvTimeClientRequest.recvTime added order ∧
    published = order.map RecvTimeClientRequest.request

variable {s s' : FifoSequencer} {added : List RecvTimeClientRequest}

/-- A round of at most `MAX_PENDING_REQUESTS` requests. -/
theorem addAll_eq (h : s.pendingClientRequests.length + added.length ≤ maxPendingRequests) :
    s.addAll added =
      .ok { s with pendingClientRequests := s.pendingClientRequests ++ added } := by
  induction added generalizing s with
  | nil =>
    rw [List.append_nil]
    rfl
  | cons q added ih =>
    rw [List.length_cons] at h
    unfold addAll
    rw [List.foldlM_cons]
    unfold addClientRequest
    rw [if_pos (by omega)]
    show addAll _ added = _
    rw [ih]
    · rw [List.append_assoc]
      rfl
    · rw [List.length_append, List.length_singleton]
      omega

/-- What is published, also in a round without requests. -/
theorem sequenceAndPublish_incomingRequest
    {sort : List RecvTimeClientRequest → List RecvTimeClientRequest} (hsort : Sorts sort) :
    (s.sequenceAndPublish sort).incomingRequest = s.incomingRequest ++
      (sort s.pendingClientRequests).map RecvTimeClientRequest.request := by
  unfold sequenceAndPublish
  split
  · next hempty =>
    have hsorted : sort s.pendingClientRequests = [] := by
      apply List.length_eq_zero_iff.mp
      rw [(hsort _).1.length_eq]
      exact hempty
    rw [hsorted, List.map_nil, List.append_nil]
  · rfl

theorem sequenceAndPublish_pendingClientRequests
    (sort : List RecvTimeClientRequest → List RecvTimeClientRequest) :
    (s.sequenceAndPublish sort).pendingClientRequests = [] := by
  unfold sequenceAndPublish
  split
  · next hempty => exact List.length_eq_zero_iff.mp hempty
  · rfl

/-- Every sorting of a list is one that some sort returns. -/
theorem exists_sorts {out : List RecvTimeClientRequest} (hperm : out.Perm added)
    (hsorted : out.Pairwise fun a b => ¬ b < a) : ∃ sort, Sorts sort ∧ sort added = out := by
  have hexists := exists_stablySorted (· ≤ · : Nanos → Nanos → Prop)
    (fun _ _ _ => Int64.le_trans) Int64.le_total RecvTimeClientRequest.recvTime
  choose stable hstable using hexists
  refine ⟨fun l => if l = added then out else stable l, ?_, if_pos rfl⟩
  intro l
  dsimp only
  split
  · next hl =>
    rw [hl]
    exact ⟨hperm, hsorted⟩
  · refine ⟨(hstable l).perm, (hstable l).ascending.imp ?_⟩
    intro a b hab
    exact Int64.not_lt.mpr hab

/-- A stable sort by receive times. -/
def sortByTime (l : List RecvTimeClientRequest) : List RecvTimeClientRequest :=
  l.insertionSort fun a b => a.recvTime ≤ b.recvTime

theorem sorts_sortByTime : Sorts sortByTime := by
  intro l
  refine ⟨List.perm_insertionSort _ l, ?_⟩
  have htotal : Std.Total fun a b : RecvTimeClientRequest => a.recvTime ≤ b.recvTime :=
    ⟨fun a b => Int64.le_total a.recvTime b.recvTime⟩
  have htrans : IsTrans RecvTimeClientRequest fun a b => a.recvTime ≤ b.recvTime :=
    ⟨fun _ _ _ => Int64.le_trans⟩
  exact (List.pairwise_insertionSort _ l).imp Int64.not_lt.mpr

/-- **When a round is published first in, first out**: whatever the sort does, exactly if requests of
equal receive times do not differ. -/
theorem sequenceAndPublish_fifo_iff (hnone : s.pendingClientRequests = [])
    (hlength : added.length ≤ maxPendingRequests) :
    ∃ s', s.addAll added = .ok s' ∧
      ((∀ sort, Sorts sort → ∃ published,
        (s'.sequenceAndPublish sort).incomingRequest = s.incomingRequest ++ published ∧
          Fifo added published) ↔
        ∀ a ∈ added, ∀ b ∈ added, a.recvTime = b.recvTime → a.request = b.request) := by
  refine ⟨_, addAll_eq (by rw [hnone]; simpa using hlength), ?_⟩
  rw [hnone, List.nil_append]
  have hiff := forall_sorted_stable_iff (· ≤ · : Nanos → Nanos → Prop)
    RecvTimeClientRequest.recvTime RecvTimeClientRequest.request added
    (fun _ _ _ => Int64.le_trans) Int64.le_total (fun _ _ => Int64.le_antisymm) (by
      intro a b htime hrequest
      cases a
      cases b
      obtain rfl := htime
      obtain rfl := hrequest
      rfl)
  rw [← hiff]
  constructor
  · intro h out hperm hascending
    obtain ⟨sort, hsort, rfl⟩ := exists_sorts hperm (hascending.imp Int64.not_lt.mpr)
    obtain ⟨published, hpublished, order, horder, rfl⟩ := h sort hsort
    rw [sequenceAndPublish_incomingRequest hsort] at hpublished
    exact ⟨order, horder, List.append_cancel_left hpublished⟩
  · intro h sort hsort
    obtain ⟨hperm, hsorted⟩ := hsort added
    obtain ⟨order, horder, hmap⟩ := h (sort added) hperm (hsorted.imp Int64.not_lt.mp)
    exact ⟨_, sequenceAndPublish_incomingRequest hsort, order, horder, hmap⟩

/-- A request about the first order of client 1, received at 5. -/
def firstOrder (type : ClientRequestType) : RecvTimeClientRequest where
  recvTime := 5
  request := {
    type := type, clientId := 1, tickerId := 0, orderId := 1, side := .buy, price := 100, qty := 10 }

/-- Three requests that come out of order, the first of them twice. -/
def threeTimes : List RecvTimeClientRequest :=
  [{ firstOrder .cancel with recvTime := 7 }, firstOrder .new,
    { firstOrder .cancel with recvTime := 7 }, { firstOrder .new with recvTime := 6 }]

theorem sequenceAndPublish_fifo_threeTimes :
    ∃ s, init.addAll threeTimes = .ok s ∧ ∀ sort, Sorts sort → ∃ published,
      (s.sequenceAndPublish sort).incomingRequest = [] ++ published ∧ Fifo threeTimes published := by
  obtain ⟨s, hs, hiff⟩ : ∃ s', init.addAll threeTimes = .ok s' ∧ _ :=
    sequenceAndPublish_fifo_iff rfl (by decide)
  exact ⟨s, hs, hiff.mpr (by decide)⟩

/-- A `NEW` and its `CANCEL`, read from the socket together, and a sort that turns them around. -/
theorem not_fifo_of_new_and_cancel :
    ∃ sort, Sorts sort ∧ ∃ s, init.addAll [firstOrder .new, firstOrder .cancel] = .ok s ∧
      (s.sequenceAndPublish sort).incomingRequest.map MEClientRequest.type = [.cancel, .new] ∧
      ¬ Fifo [firstOrder .new, firstOrder .cancel] (s.sequenceAndPublish sort).incomingRequest := by
  have hnot : ¬ firstOrder .new < firstOrder .cancel := Int64.lt_irrefl
  obtain ⟨sort, hsort, hsorted⟩ : ∃ sort, Sorts sort ∧
      sort [firstOrder .new, firstOrder .cancel] = [firstOrder .cancel, firstOrder .new] :=
    exists_sorts (List.Perm.swap _ _ _) (by
      rw [List.pairwise_pair]
      exact hnot)
  refine ⟨sort, hsort, _, rfl, ?_, ?_⟩
  · rw [sequenceAndPublish_incomingRequest hsort]
    show ([] ++ (sort [firstOrder .new, firstOrder .cancel]).map _).map _ = _
    rw [hsorted]
    rfl
  · rw [sequenceAndPublish_incomingRequest hsort]
    show ¬ Fifo _ ([] ++ (sort [firstOrder .new, firstOrder .cancel]).map _)
    rw [hsorted]
    intro ⟨order, horder, hpublished⟩
    -- the two have one receive time, so that only their own order is first in, first out
    have hties := horder.ties 5
    have hall : order.filter (fun a => a.recvTime = 5) = order := by
      apply List.filter_eq_self.mpr
      intro a ha
      have hmem := horder.perm.mem_iff.mp ha
      simp only [List.mem_cons, List.not_mem_nil, or_false] at hmem
      rcases hmem with rfl | rfl
      · decide
      · decide
    rw [hall] at hties
    rw [hties] at hpublished
    revert hpublished
    decide

end FifoSequencer

end TradingSystem
