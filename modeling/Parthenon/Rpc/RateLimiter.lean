import Parthenon.Library.ByteCodec
import Parthenon.Library.OrderedMap
import Parthenon.Library.Runs
import Parthenon.Library.Windows

namespace Parthenon.Rpc

open Library Std

/-! # The rate limiter

Requests are counted for each client from the first one on, and from zero again once the
window is over.  Time is counted in nanoseconds of the steady clock.
-/

structure RateLimitInfo where
  requestCount : UInt32
  windowStart : Int
  lastRequest : Int
deriving DecidableEq, Repr

/-- A limiter that allows requests allows them in bursts. -/
structure RateLimiter where
  maxRequests : UInt32
  windowDuration : Int
  burstSize : UInt32
  clients : ExtTreeMap Bytes RateLimitInfo compare
  bursts : 0 < maxRequests → 0 < burstSize

namespace RateLimiter

def seconds (count : Nat) : Int := 1000000000 * count

/-- Below this distance two requests are of one burst. -/
def burstGap : Int := 100000000

/-- What is not used for longer than this is cleaned up. -/
def cleanupThreshold : Int := seconds 3600

def construct (requestsPerWindow windowSeconds burstSize : UInt32) : RateLimiter where
  maxRequests := requestsPerWindow
  windowDuration := seconds windowSeconds.toNat
  burstSize := if burstSize > 0 then burstSize else requestsPerWindow
  clients := ∅
  bursts := by
    intro allows
    split
    · assumption
    · exact allows

/-- The record a request is judged by, its window restarted when that is over. -/
def restartWindow (limiter : RateLimiter) (info : RateLimitInfo) (now : Int) : RateLimitInfo :=
  if now - info.windowStart ≥ limiter.windowDuration then
    { info with requestCount := 0, windowStart := now }
  else info

/-- Whether a request is allowed on the record of its client, and what the record becomes. -/
def checkRequest (limiter : RateLimiter) (known : RateLimitInfo) (now : Int) : Bool × RateLimitInfo :=
  let info := limiter.restartWindow known now
  if info.requestCount ≥ limiter.maxRequests then (false, info)
  else if now - info.lastRequest < burstGap ∧ info.requestCount ≥ limiter.burstSize then (false, info)
  else (true, { info with requestCount := info.requestCount + 1, lastRequest := now })

/-- The record of a new client reads the clock twice more. -/
def allowRequest (limiter : RateLimiter) (ipAddress : Bytes) (now windowStart lastRequest : Int) :
    Bool × RateLimiter :=
  let known := limiter.clients.getD ipAddress { requestCount := 0, windowStart, lastRequest }
  let (allowed, info) := limiter.checkRequest known now
  (allowed, { limiter with clients := limiter.clients.insert ipAddress info })

def resetIP (limiter : RateLimiter) (ipAddress : Bytes) : RateLimiter :=
  { limiter with clients := limiter.clients.erase ipAddress }

def cleanup (limiter : RateLimiter) (now : Int) : RateLimiter :=
  { limiter with
    clients := limiter.clients.filter fun _ info => !(now - info.lastRequest > cleanupThreshold) }

/-! ## What a call does to the records -/

variable (limiter : RateLimiter)

theorem checkRequest_cases (known : RateLimitInfo) (now : Int) {info : RateLimitInfo}
    (restarted : limiter.restartWindow known now = info) :
    ¬ (info.requestCount < limiter.maxRequests ∧ info.requestCount < limiter.burstSize) ∧
        limiter.checkRequest known now = (false, info) ∨
      info.requestCount < limiter.maxRequests ∧
        (burstGap ≤ now - info.lastRequest ∨ info.requestCount < limiter.burstSize) ∧
        limiter.checkRequest known now =
          (true, { info with requestCount := info.requestCount + 1, lastRequest := now }) := by
  unfold checkRequest
  rw [restarted]
  dsimp only
  by_cases full : info.requestCount ≥ limiter.maxRequests
  · rw [if_pos full]
    exact .inl ⟨fun both => absurd full (UInt32.not_le.mpr both.1), rfl⟩
  · rw [if_neg full]
    by_cases burst : now - info.lastRequest < burstGap ∧ info.requestCount ≥ limiter.burstSize
    · rw [if_pos burst]
      exact .inl ⟨fun both => absurd burst.2 (UInt32.not_le.mpr both.2), rfl⟩
    · rw [if_neg burst]
      refine .inr ⟨UInt32.not_le.mp full, ?_, rfl⟩
      by_cases far : burstGap ≤ now - info.lastRequest
      · exact .inl far
      · exact .inr (UInt32.not_le.mp fun reached => burst ⟨Int.not_le.mp far, reached⟩)

theorem cleanup_clients (now : Int) (ipAddress : Bytes) :
    (limiter.cleanup now).clients[ipAddress]? =
      limiter.clients[ipAddress]?.filter fun info => !(now - info.lastRequest > cleanupThreshold) := by
  rw [cleanup, ExtTreeMap.getElem?_filter']

/-- A window in which requests are counted: no record is cleaned up within it. -/
def reach : Int := min limiter.windowDuration cleanupThreshold

def burstReach : Int := min burstGap limiter.reach

end RateLimiter

/-! ## The record of a client -/

/-- The requests of a client before its current window and in it, up to an instant.  A window
that opens late misses the first request that was counted. -/
structure Tracked (reach burstReach : Int) (maxRequests burstSize : UInt32) (clock : Int)
    (earlier current : List Int) (begins : Int) : Prop where
  counted : Paced reach (maxRequests.toNat - 1) maxRequests.toNat earlier current begins
  bursts : Paced burstReach burstSize.toNat burstSize.toNat earlier current begins
  past : ∀ time ∈ earlier ++ current, time ≤ clock
  begun : begins ≤ clock

/-- What a record says of the requests of its client. -/
structure Recorded (earlier current : List Int) (begins : Int) (info : RateLimitInfo) : Prop where
  count : info.requestCount.toNat = current.length
  started : begins ≤ info.windowStart
  windowed : ∀ time ∈ earlier, time ≤ info.windowStart
  recent : ∀ time ∈ earlier ++ current, time ≤ info.lastRequest

/-- A client without a record has no request in a window, and the others had one allowed. -/
def Keeps (limiter : RateLimiter) (clock : Int) (times : List Int) (record : Option RateLimitInfo) :
    Prop :=
  ∃ earlier current begins, times = earlier ++ current ∧
    Tracked limiter.reach limiter.burstReach limiter.maxRequests limiter.burstSize clock earlier
      current begins ∧
    match record with
    | none => current = []
    | some info => Recorded earlier current begins info ∧
        (begins ∈ current ∨ current = [] ∧ limiter.maxRequests = 0)

/-- A record that a request is judged by: its window may have begun with the request. -/
def Judged (limiter : RateLimiter) (now : Int) (times : List Int) (info : RateLimitInfo) : Prop :=
  ∃ earlier current begins, times = earlier ++ current ∧
    Tracked limiter.reach limiter.burstReach limiter.maxRequests limiter.burstSize now earlier
      current begins ∧
    Recorded earlier current begins info ∧
    (begins ∈ current ∨ current = [] ∧ (begins = now ∨ limiter.maxRequests = 0))

section Records

variable {limiter : RateLimiter} {clock now : Int} {times : List Int} {info : RateLimitInfo}

theorem Keeps.start (limiter : RateLimiter) (clock : Int) : Keeps limiter clock [] none :=
  ⟨[], [], clock, rfl, ⟨.start clock, .start clock, nofun, le_rfl⟩, rfl⟩

theorem Keeps.later {record : Option RateLimitInfo} (keeps : Keeps limiter clock times record)
    (passes : clock ≤ now) : Keeps limiter now times record := by
  obtain ⟨earlier, current, begins, rfl, tracked, recorded⟩ := keeps
  exact ⟨earlier, current, begins, rfl,
    { tracked with
      past := fun time member => (tracked.past time member).trans passes
      begun := tracked.begun.trans passes },
    recorded⟩

theorem Keeps.judged (keeps : Keeps limiter now times (some info)) :
    Judged limiter now times info := by
  obtain ⟨earlier, current, begins, same, tracked, recorded, begun⟩ := keeps
  exact ⟨earlier, current, begins, same, tracked, recorded,
    begun.imp_right (And.imp_right .inr)⟩

/-- The record of a new client starts when its first request has begun. -/
theorem Keeps.fresh {windowStart lastRequest : Int} (keeps : Keeps limiter now times none)
    (starts : now ≤ windowStart) (reads : windowStart ≤ lastRequest) :
    Judged limiter now times { requestCount := 0, windowStart, lastRequest } := by
  obtain ⟨earlier, current, begins, rfl, tracked, rfl⟩ := keeps
  refine ⟨earlier, [], now, rfl,
    { tracked with
      counted := tracked.counted.rebase tracked.begun
      bursts := tracked.bursts.rebase tracked.begun
      begun := le_rfl },
    ⟨rfl, starts, ?_, ?_⟩, .inr ⟨rfl, .inl rfl⟩⟩
  · intro time member
    exact (tracked.past time (List.mem_append_left _ member)).trans starts
  · intro time member
    exact (tracked.past time member).trans (starts.trans reads)

/-- Where the requests up to the current epoch are out of reach, another epoch may begin. -/
theorem Tracked.turn {earlier current : List Int} {begins : Int}
    (tracked : Tracked limiter.reach limiter.burstReach limiter.maxRequests limiter.burstSize now
      earlier current begins)
    (ended : begins + limiter.reach ≤ now) (apart : ∀ time ∈ earlier, time + limiter.reach ≤ now) :
    Tracked limiter.reach limiter.burstReach limiter.maxRequests limiter.burstSize now
      (earlier ++ current) [] now := by
  have shorter : limiter.burstReach ≤ limiter.reach := Int.min_le_right _ _
  refine ⟨tracked.counted.turn ended apart, tracked.bursts.turn (by omega) ?_, ?_, le_rfl⟩
  · intro time member
    have far := apart time member
    omega
  · rw [List.append_nil]
    exact tracked.past

/-- A window that is over leaves the requests before it out of reach. -/
theorem Judged.restart (judged : Judged limiter now times info) :
    Judged limiter now times (limiter.restartWindow info now) := by
  unfold RateLimiter.restartWindow
  split
  · rename_i ended
    obtain ⟨earlier, current, begins, rfl, tracked, recorded, _⟩ := judged
    have shorter : limiter.reach ≤ limiter.windowDuration := Int.min_le_left _ _
    have started := recorded.started
    refine ⟨earlier ++ current, [], now, (List.append_nil _).symm,
      tracked.turn (by omega) ?_, ⟨rfl, le_rfl, tracked.past, ?_⟩, .inr ⟨rfl, .inl rfl⟩⟩
    · intro time member
      have before := recorded.windowed time member
      omega
    · rw [List.append_nil]
      exact recorded.recent
  · exact judged

/-- Only a limiter that allows nothing refuses the first request of a window. -/
theorem Judged.refuse (judged : Judged limiter now times info)
    (refused : ¬ (info.requestCount < limiter.maxRequests ∧ info.requestCount < limiter.burstSize)) :
    Keeps limiter now times (some info) := by
  obtain ⟨earlier, current, begins, same, tracked, recorded, begun⟩ := judged
  refine ⟨earlier, current, begins, same, tracked, recorded, begun.imp_right ?_⟩
  rintro ⟨none_, _⟩
  refine ⟨none_, ?_⟩
  by_contra some_
  have allows := UInt32.pos_iff_ne_zero.mpr some_
  have zero : info.requestCount = 0 := by
    rw [← UInt32.toNat_inj, recorded.count, none_]
    rfl
  rw [zero] at refused
  exact refused ⟨allows, limiter.bursts allows⟩

/-- A request that is allowed is one more in its window, and in its burst if it is near. -/
theorem Judged.serve (judged : Judged limiter now times info)
    (room : info.requestCount < limiter.maxRequests)
    (paced : RateLimiter.burstGap ≤ now - info.lastRequest ∨ info.requestCount < limiter.burstSize) :
    Keeps limiter now (times ++ [now])
      (some { info with requestCount := info.requestCount + 1, lastRequest := now }) := by
  obtain ⟨earlier, current, begins, rfl, tracked, recorded, begun⟩ := judged
  have roomNat := UInt32.lt_iff_toNat_lt.mp room
  have nonzero : limiter.maxRequests ≠ 0 := fun zero => by simp [zero] at roomNat
  have few : current.length < limiter.maxRequests.toNat := recorded.count ▸ roomNat
  have past : ∀ time ∈ earlier ++ (current ++ [now]), time ≤ now := by
    intro time member
    rw [← List.append_assoc, List.mem_append, List.mem_singleton] at member
    rcases member with old | rfl
    · exact tracked.past time old
    · exact le_rfl
  have first : begins ∈ current ++ [now] := by
    rw [List.mem_append, List.mem_singleton]
    exact begun.imp_right fun fresh => fresh.2.resolve_right nonzero
  have fitsBurst : ∀ opens,
      inWindow limiter.burstReach opens (current ++ [now]) ≤ limiter.burstSize.toNat := by
    rcases paced with far | fewer
    · have some_ := limiter.bursts (UInt32.pos_iff_ne_zero.mpr nonzero)
      apply inWindow_snoc_of_apart (UInt32.lt_iff_toNat_lt.mp some_) tracked.bursts.current_le
      intro other member
      have before := recorded.recent other (List.mem_append_right _ member)
      have shorter : limiter.burstReach ≤ RateLimiter.burstGap := Int.min_le_left _ _
      omega
    · have below := UInt32.lt_iff_toNat_lt.mp fewer
      rw [recorded.count] at below
      exact inWindow_snoc_of_few below
  refine ⟨earlier, current ++ [now], begins, List.append_assoc .., ⟨?_, ?_, past, tracked.begun⟩,
    ⟨?_, recorded.started, recorded.windowed, past⟩, .inl first⟩
  · apply tracked.counted.snoc tracked.begun (inWindow_snoc_of_few few)
    intro opens late
    have missed : inWindow limiter.reach opens (current ++ [now]) < (current ++ [now]).length :=
      inWindow_lt_length first late
    rw [List.length_append, List.length_singleton] at missed
    omega
  · exact tracked.bursts.snoc tracked.begun fitsBurst fun opens _ => fitsBurst opens
  · have bound := limiter.maxRequests.toNat_lt
    have one : (1 : UInt32).toNat = 1 := rfl
    rw [UInt32.toNat_add, one, recorded.count, List.length_append, List.length_singleton]
    omega

/-- What is cleaned up has no request within reach. -/
theorem Keeps.forget (keeps : Keeps limiter now times (some info))
    (unused : now - info.lastRequest > RateLimiter.cleanupThreshold) :
    Keeps limiter now times none := by
  obtain ⟨earlier, current, begins, rfl, tracked, recorded, member | ⟨rfl, _⟩⟩ := keeps
  · have shorter : limiter.reach ≤ RateLimiter.cleanupThreshold := Int.min_le_right _ _
    have used := recorded.recent begins (List.mem_append_right _ member)
    refine ⟨earlier ++ current, [], now, (List.append_nil _).symm,
      tracked.turn (by omega) ?_, rfl⟩
    intro time member
    have before := recorded.recent time (List.mem_append_left _ member)
    omega
  · exact ⟨earlier, [], begins, rfl, tracked, rfl⟩

/-- No window counts more than two epochs allow. -/
theorem Keeps.limits {record : Option RateLimitInfo} (keeps : Keeps limiter now times record)
    (opens : Int) :
    inWindow limiter.reach opens times ≤ 2 * limiter.maxRequests.toNat - 1 ∧
      inWindow limiter.burstReach opens times ≤ 2 * limiter.burstSize.toNat := by
  obtain ⟨earlier, current, begins, rfl, tracked, _⟩ := keeps
  have counted := tracked.counted.inWindow_le opens
  have bursts := tracked.bursts.inWindow_le opens
  omega

end Records

/-! ## Runs -/

inductive LimiterCall
  | allowRequest (ipAddress : Bytes) (now windowStart lastRequest : Int)
  | resetIP (ipAddress : Bytes)
  | cleanup (now : Int)
deriving DecidableEq, Repr

/-- A limiter with the clock it last read, and the requests it allowed since their clients
were last reset. -/
structure Attended where
  limiter : RateLimiter
  clock : Int
  allowed : List (Bytes × Int)

namespace Attended

def start (limiter : RateLimiter) (clock : Int) : Attended := { limiter, clock, allowed := [] }

/-- When the requests of a client were allowed. -/
def allowedTo (state : Attended) (ipAddress : Bytes) : List Int :=
  (state.allowed.filter fun request => request.1 = ipAddress).map Prod.snd

/-- The clock does not run backwards. -/
def InTime (state : Attended) : LimiterCall → Prop
  | .allowRequest _ now windowStart lastRequest =>
      state.clock ≤ now ∧ now ≤ windowStart ∧ windowStart ≤ lastRequest
  | .resetIP _ => True
  | .cleanup now => state.clock ≤ now

instance (state : Attended) (call : LimiterCall) : Decidable (state.InTime call) := by
  cases call <;> unfold InTime <;> infer_instance

def attend (state : Attended) : LimiterCall → Attended
  | .allowRequest ipAddress now windowStart lastRequest =>
      let (allowed, limiter) := state.limiter.allowRequest ipAddress now windowStart lastRequest
      { limiter
        clock := now
        allowed := if allowed then state.allowed ++ [(ipAddress, now)] else state.allowed }
  | .resetIP ipAddress =>
      { state with
        limiter := state.limiter.resetIP ipAddress
        allowed := state.allowed.filter fun request => request.1 ≠ ipAddress }
  | .cleanup now => { state with limiter := state.limiter.cleanup now, clock := now }

/-- The records keep up with the requests that were allowed. -/
def Counts (state : Attended) : Prop :=
  ∀ ipAddress : Bytes, Keeps state.limiter state.clock (state.allowedTo ipAddress)
    state.limiter.clients[ipAddress]?

/-- The limits are those a limiter was constructed with. -/
def LimitsOf (limiter : RateLimiter) (state : Attended) : Prop :=
  state.limiter.maxRequests = limiter.maxRequests ∧
    state.limiter.windowDuration = limiter.windowDuration ∧
    state.limiter.burstSize = limiter.burstSize

variable {state : Attended} {limiter : RateLimiter}

theorem start_counts (requestsPerWindow windowSeconds burstSize : UInt32) (clock : Int) :
    (start (.construct requestsPerWindow windowSeconds burstSize) clock).Counts := by
  intro ipAddress
  have empty : (∅ : ExtTreeMap Bytes RateLimitInfo compare)[ipAddress]? = none :=
    ExtTreeMap.getElem?_empty
  change Keeps _ _ [] (∅ : ExtTreeMap Bytes RateLimitInfo compare)[ipAddress]?
  rw [empty]
  exact .start _ _

theorem allowedTo_snoc (requests : List (Bytes × Int)) (ipAddress other : Bytes) (now clock : Int) :
    allowedTo { limiter, clock, allowed := requests ++ [(ipAddress, now)] } other =
      if ipAddress = other then allowedTo { limiter, clock, allowed := requests } other ++ [now]
      else allowedTo { limiter, clock, allowed := requests } other := by
  unfold allowedTo
  rw [List.filter_append, List.map_append]
  by_cases same : ipAddress = other
  · simp [same]
  · simp [same]

theorem allowedTo_reset (requests : List (Bytes × Int)) (ipAddress other : Bytes) (clock : Int) :
    allowedTo
        { limiter, clock, allowed := requests.filter fun request => request.1 ≠ ipAddress } other =
      if ipAddress = other then [] else allowedTo { limiter, clock, allowed := requests } other := by
  unfold allowedTo
  dsimp only
  rw [List.filter_filter]
  split
  · rename_i same
    rw [List.map_eq_nil_iff, List.filter_eq_nil_iff]
    intro request _ both
    simp [same] at both
  · rename_i differs
    congr 1
    apply List.filter_congr
    intro request _
    by_cases here : request.1 = other
    · simp [here, Ne.symm differs]
    · simp [here]

/-- A request is judged by the record of its client, and leaves the others as they are. -/
theorem allowRequest_counts (counts : state.Counts) {now windowStart lastRequest : Int}
    (inTime : state.InTime (.allowRequest ipAddress now windowStart lastRequest)) :
    (state.attend (.allowRequest ipAddress now windowStart lastRequest)).Counts := by
  obtain ⟨passes, starts, reads⟩ := inTime
  have known : Judged state.limiter now (state.allowedTo ipAddress) (state.limiter.clients.getD
      ipAddress { requestCount := 0, windowStart, lastRequest }) := by
    have keeps := (counts ipAddress).later passes
    rw [ExtTreeMap.getD_eq_getD_getElem?]
    cases found : state.limiter.clients[ipAddress]? with
    | none =>
        rw [found] at keeps
        exact keeps.fresh starts reads
    | some info =>
        rw [found] at keeps
        exact keeps.judged
  have restarted := known.restart
  intro other
  rcases state.limiter.checkRequest_cases (state.limiter.clients.getD ipAddress
      { requestCount := 0, windowStart, lastRequest }) now rfl with ⟨full, refused⟩ | ⟨room, paced, allowed⟩
  · simp only [attend, RateLimiter.allowRequest, refused, Bool.false_eq_true, if_false]
    rw [getElem?_insert_eq]
    split
    · rename_i same
      rw [← same]
      exact restarted.refuse full
    · exact (counts other).later passes
  · simp only [attend, RateLimiter.allowRequest, allowed, if_true]
    rw [getElem?_insert_eq, allowedTo_snoc]
    split
    · rename_i same
      rw [← same]
      exact restarted.serve room paced
    · exact (counts other).later passes

theorem attend_counts {call : LimiterCall} (counts : state.Counts) (inTime : state.InTime call) :
    (state.attend call).Counts := by
  cases call with
  | allowRequest => exact allowRequest_counts counts inTime
  | resetIP ipAddress =>
      intro other
      unfold attend RateLimiter.resetIP
      dsimp only
      rw [getElem?_erase_eq, allowedTo_reset]
      split
      · exact .start _ _
      · exact counts other
  | cleanup now =>
      intro other
      have keeps := (counts other).later inTime
      unfold attend
      dsimp only
      rw [RateLimiter.cleanup_clients]
      cases found : state.limiter.clients[other]? with
      | none =>
          rw [found] at keeps
          exact keeps
      | some info =>
          rw [found] at keeps
          rw [Option.filter_some]
          split
          · exact keeps
          · rename_i unused
            rw [Bool.not_eq_true', decide_eq_false_iff_not, not_not] at unused
            exact keeps.forget unused

theorem attend_limits (call : LimiterCall) (limits : state.LimitsOf limiter) :
    (state.attend call).LimitsOf limiter := by
  cases call <;> exact limits

/-- In every run, a window of the configured length, or of an hour if that is shorter, sees
at least one request less of a client than twice what the limiter is configured for, and
a window of a tenth of a second no more than twice the burst. -/
theorem run_limits (requestsPerWindow windowSeconds burstSize : UInt32) (clock : Int)
    (calls : List LimiterCall)
    (inTime : Obeys InTime attend
      (start (.construct requestsPerWindow windowSeconds burstSize) clock) calls)
    (ipAddress : Bytes) (opens : Int) :
    let limiter := RateLimiter.construct requestsPerWindow windowSeconds burstSize
    let allowed := (calls.foldl attend (start limiter clock)).allowedTo ipAddress
    inWindow limiter.reach opens allowed ≤ 2 * requestsPerWindow.toNat - 1 ∧
      inWindow limiter.burstReach opens allowed ≤ 2 * limiter.burstSize.toNat := by
  intro limiter allowed
  obtain ⟨counts, sameMax, sameWindow, sameBurst⟩ : (calls.foldl attend (start limiter clock)).Counts ∧
      (calls.foldl attend (start limiter clock)).LimitsOf limiter := by
    apply inTime.invariant (motive := fun state => state.Counts ∧ state.LimitsOf limiter)
    · rintro state call ⟨counts, limits⟩ here
      exact ⟨attend_counts counts here, attend_limits call limits⟩
    · exact ⟨start_counts _ _ _ _, rfl, rfl, rfl⟩
  have limits := (counts ipAddress).limits opens
  unfold RateLimiter.burstReach RateLimiter.reach at limits ⊢
  rw [sameMax, sameWindow, sameBurst] at limits
  exact limits

/-! Two requests a minute, made late in the first window and early in the second one. -/
namespace TwoAMinute

def client : Bytes := [127, 0, 0, 1]

def calls : List LimiterCall :=
  [0, 59, 60, 61].map fun second =>
    .allowRequest client (RateLimiter.seconds second) (RateLimiter.seconds second)
      (RateLimiter.seconds second)

theorem inTime : Obeys InTime attend (start (.construct 2 60 0) 0) calls := by decide +kernel

/-- The window from the last request of the first minute on sees three requests. -/
theorem run_limits_twoAMinute :
    let limiter := RateLimiter.construct 2 60 0
    let allowed := (calls.foldl attend (start limiter 0)).allowedTo client
    let opens := RateLimiter.seconds 59
    (inWindow limiter.reach opens allowed ≤ 2 * 2 - 1 ∧
      inWindow limiter.burstReach opens allowed ≤ 2 * limiter.burstSize.toNat) ∧
    inWindow limiter.reach opens allowed = 3 :=
  ⟨run_limits 2 60 0 0 calls inTime client (RateLimiter.seconds 59), by decide +kernel⟩

end TwoAMinute

end Attended

end Parthenon.Rpc
