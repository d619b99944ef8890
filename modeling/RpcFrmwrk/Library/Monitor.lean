import RpcFrmwrk.Library.Reading

/-! Programs that read a memory and tell what they do. A program is a function of the memory's
bytes. It returns a result and the list of its events, and a property of the events is kept by a
program when it is kept by its parts. Owns `Monitored` and its monad; `result` and `Keeps`, with a
rule for each way to build a program. -/

namespace RpcFrmwrk.Library

/-- A program that reads a memory of bytes and tells events. -/
def Monitored (Event α : Type) : Type := (Nat → UInt8) → α × List Event

namespace Monitored

variable {Event α β : Type}

def tell (events : List Event) : Monitored Event Unit := fun _ => ((), events)

def ask (question : (Nat → UInt8) → α) : Monitored Event α := fun memory => (question memory, [])

instance : Monad (Monitored Event) where
  pure value := fun _ => (value, [])
  bind first next := fun memory =>
    let (middle, events) := first memory
    let (value, behind) := next middle memory
    (value, events ++ behind)

def result (program : Monitored Event α) (memory : Nat → UInt8) : α := (program memory).1

def Keeps (good : Event → Prop) (program : Monitored Event α) (memory : Nat → UInt8) : Prop :=
  ∀ event ∈ (program memory).2, good event

variable {good : Event → Prop} {memory : Nat → UInt8}

@[simp] theorem result_pure (value : α) : (pure value : Monitored Event α).result memory = value := rfl

@[simp] theorem result_tell (events : List Event) : (tell events).result memory = () := rfl

@[simp] theorem result_ask (question : (Nat → UInt8) → α) :
    (ask question : Monitored Event α).result memory = question memory := rfl

@[simp] theorem result_bind (first : Monitored Event α) (next : α → Monitored Event β) :
    (first >>= next).result memory = (next (first.result memory)).result memory := rfl

@[simp] theorem keeps_pure (value : α) : (pure value : Monitored Event α).Keeps good memory :=
  List.forall_mem_nil _

@[simp] theorem keeps_tell (events : List Event) : (tell events).Keeps good memory ↔ ∀ event ∈ events, good event :=
  Iff.rfl

@[simp] theorem keeps_ask (question : (Nat → UInt8) → α) : (ask question : Monitored Event α).Keeps good memory :=
  List.forall_mem_nil _

theorem pure_bind (value : α) (next : α → Monitored Event β) : (pure value : Monitored Event α) >>= next = next value := rfl

@[simp] theorem keeps_bind (first : Monitored Event α) (next : α → Monitored Event β) :
    (first >>= next).Keeps good memory ↔
      first.Keeps good memory ∧ (next (first.result memory)).Keeps good memory :=
  List.forall_mem_append

end Monitored

end RpcFrmwrk.Library
