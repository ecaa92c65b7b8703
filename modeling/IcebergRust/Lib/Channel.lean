import Mathlib.Data.List.Basic

/-!
# Bounded channels

`futures::channel::mpsc`.  Beside the buffer every sender has a slot of its own: a sender is parked
by a message that goes beyond the buffer, and only a parked sender finds the channel full.  A fresh
clone is never parked, so it gets one message through even where the buffer has size zero
(`trySend_fresh`).

What was sent is received in its order, and a closed channel still hands out what it has.
-/

/-- A channel: the messages on their way, and whether it can be sent to. -/
structure Channel (α : Type) where
  buffer : Nat
  messages : List α
  isOpen : Bool

namespace Channel

/-- One end to send to a channel with. -/
structure Sender where
  /-- Its last message was beyond the buffer. -/
  parked : Bool

/-- Why a message is not taken. -/
inductive SendError where
  | full
  | disconnected
deriving DecidableEq, Repr

/-- `Display` of the errors. -/
def SendError.text : SendError → String
  | .full => "send failed because channel is full"
  | .disconnected => "send failed because receiver is gone"

/-- A sender that was just made, by `channel` or by `clone`. -/
def Sender.fresh : Sender := ⟨false⟩

variable {α : Type}

/-- `channel`. -/
def new (buffer : Nat) : Channel α := ⟨buffer, [], true⟩

/-- A message joins the queue. -/
def push (channel : Channel α) (message : α) : Channel α :=
  { channel with messages := channel.messages ++ [message] }

/-- `Sender::try_send`. -/
def trySend (channel : Channel α) (sender : Sender) (message : α) :
    Except SendError (Channel α × Sender) :=
  if sender.parked then .error .full
  else if channel.isOpen then
    .ok (channel.push message, ⟨channel.buffer < channel.messages.length + 1⟩)
  else .error .disconnected

/-- `close_channel`, and what dropping the receiver does to the senders. -/
def close (channel : Channel α) : Channel α := { channel with isOpen := false }

/-- `SinkExt::send` of the only sender has returned: the queue is within the buffer, or nobody
receives any more. -/
def Flushed (channel : Channel α) : Prop :=
  channel.isOpen = true → channel.messages.length ≤ channel.buffer

instance (channel : Channel α) : Decidable channel.Flushed :=
  inferInstanceAs (Decidable (_ → _))

@[simp] theorem messages_push (channel : Channel α) (message : α) :
    (channel.push message).messages = channel.messages ++ [message] := rfl

@[simp] theorem messages_close (channel : Channel α) : channel.close.messages = channel.messages :=
  rfl

/-- A fresh sender of an open channel gets its message through, whatever the buffer. -/
theorem trySend_fresh {channel : Channel α} (isOpen : channel.isOpen = true) (message : α) :
    channel.trySend .fresh message =
      .ok (channel.push message, ⟨channel.buffer < channel.messages.length + 1⟩) := by
  unfold trySend
  rw [if_neg (by simp [Sender.fresh]), if_pos isOpen]

end Channel
