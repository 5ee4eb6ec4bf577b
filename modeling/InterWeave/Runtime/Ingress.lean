import InterWeave.Api.Identity
import InterWeave.Lib.Saturating

/-!
`runtime::ingress`: a token bucket for each source peer and, for the direct
protocol, one bucket all peers share.
-/

namespace InterWeave

open Std (ExtTreeMap)
open Saturating

def msPerMinute : Nat := 60000

structure Bucket where
  tokens : Nat
  burst : Nat
  perMinute : Nat
  lastRefillMs : Nat
  deriving DecidableEq

namespace Bucket

def new (perMinute burst nowMs : Nat) : Bucket :=
  ⟨burst, burst, perMinute, nowMs⟩

def refill (bucket : Bucket) (nowMs : Nat) : Bucket :=
  if bucket.perMinute = 0 then bucket
  else
    let elapsed := nowMs - bucket.lastRefillMs
    if elapsed = 0 then bucket
    else
      let gained := min (mul64 elapsed bucket.perMinute / msPerMinute) u32Max
      if gained = 0 then bucket
      else
        let consumedMs := mul64 gained msPerMinute / bucket.perMinute
        { bucket with
          tokens := min (add32 bucket.tokens gained) bucket.burst
          lastRefillMs := add64 bucket.lastRefillMs consumedMs }

def tryConsume (bucket : Bucket) (nowMs : Nat) : Bucket × Bool :=
  let bucket := bucket.refill nowMs
  if bucket.tokens = 0 then (bucket, false)
  else ({ bucket with tokens := bucket.tokens - 1 }, true)

end Bucket

inductive IngressDenial where
  | perPeerExhausted
  | globalExhausted
  deriving DecidableEq, Repr

structure IngressLimiter where
  perPeer : ExtTreeMap TransportIdentity Bucket
  global : Option Bucket
  perPeerPerMinute : Nat
  perPeerBurst : Nat
  lastPruneMs : Nat

namespace IngressLimiter

def pruneIntervalMs : Nat := 60000

def defaultPerPeerPerMinute : Nat := 120
def defaultPerPeerBurst : Nat := 32
def defaultGlobalPerMinute : Nat := 1200
def defaultGlobalBurst : Nat := 256

def new (perPeerPerMinute perPeerBurst globalPerMinute globalBurst nowMs : Nat) :
    IngressLimiter where
  perPeer := ∅
  global := some (Bucket.new globalPerMinute globalBurst nowMs)
  perPeerPerMinute := perPeerPerMinute
  perPeerBurst := perPeerBurst
  lastPruneMs := nowMs

def withDefaults (nowMs : Nat) : IngressLimiter :=
  new defaultPerPeerPerMinute defaultPerPeerBurst defaultGlobalPerMinute defaultGlobalBurst nowMs

def pruneIdle (limiter : IngressLimiter) (nowMs : Nat) : IngressLimiter :=
  { limiter with
    perPeer := limiter.perPeer.filterMap fun _ bucket =>
      let bucket := bucket.refill nowMs
      if bucket.tokens < bucket.burst then some bucket else none }

def pruned (limiter : IngressLimiter) (nowMs : Nat) : IngressLimiter :=
  if nowMs - limiter.lastPruneMs ≥ pruneIntervalMs then
    { limiter.pruneIdle nowMs with lastPruneMs := nowMs }
  else limiter

def admitPeer (limiter : IngressLimiter) (peer : TransportIdentity) (nowMs : Nat) :
    IngressLimiter × Except IngressDenial Unit :=
  let limiter := limiter.pruned nowMs
  let held := limiter.perPeer[peer]?.getD
    (Bucket.new limiter.perPeerPerMinute limiter.perPeerBurst nowMs)
  let (bucket, granted) := held.tryConsume nowMs
  let limiter := { limiter with perPeer := limiter.perPeer.insert peer bucket }
  if !granted then (limiter, .error .perPeerExhausted)
  else
    match limiter.global with
    | none => (limiter, .ok ())
    | some global =>
      let (global, granted) := global.tryConsume nowMs
      let limiter := { limiter with global := some global }
      if granted then (limiter, .ok ()) else (limiter, .error .globalExhausted)

end IngressLimiter

end InterWeave
