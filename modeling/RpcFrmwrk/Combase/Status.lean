/-!
Contract: the return codes of the framework's methods.

A method returns `STATUS_SUCCESS` or a negative errno value; callers test the
result with the `ERROR` macro. Only the codes the modelled methods return are
listed.
-/

namespace RpcFrmwrk

inductive Status where
  | success
  | enoent
  | e2big
  | eagain
  | enomem
  | efault
  | eexist
  | enotdir
  | einval
  | enospc
  | erange
  | ebadmsg
  | enotsup
  | eacces
  | efbig
deriving DecidableEq, Repr

/-- `ERROR( ret )`. -/
def Status.failed : Status → Bool
  | .success => false
  | _ => true

@[simp] theorem Status.failed_success : Status.success.failed = false := rfl

theorem Status.failed_eq_false_iff (ret : Status) : ret.failed = false ↔ ret = .success := by
  cases ret <;> simp [Status.failed]

end RpcFrmwrk
