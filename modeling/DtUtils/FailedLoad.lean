/-
What a load that fails leaves of the variables. Both formats fill them one by
one while they still check the rest: the raw format goes on behind a variable
that ends outside the data, and the dtb format stops at the first node that it
cannot import (`failed_load_keeps_iff`).
-/
import DtUtils.RawRoundTrip
import DtUtils.TypedNodes
import DtUtils.Unflatten

namespace DtUtils
open Lib

/-- The process gets through reading its buckets, these are the first data that
verify, and the format is left as `f`. -/
def Selected {F : Type} (fmt : Format F) (noAuth : Bool) (env : Env) (st : State F Bucket) (f : F) (data : Bytes)
    (len : Int) : Prop :=
  (stateStorageRead bucketDriver (fmt.verify st.data.magic noAuth) env st.format st.storage).env.alive = true ∧
    verifyAll (fmt.verify st.data.magic noAuth) st.format (deliveries bucketDriver env st.storage.buckets) =
      some (f, some (data, len))

/-- The variable ends inside the stored data. -/
def RawHolds (data : Bytes) (sv : StateVariable) : Prop := sv.endPos ≤ (BackendRawHeader.parse data).dataLen

/-- A variable's bytes in stored data. -/
def rawStored (data : Bytes) (sv : StateVariable) : Bytes := slice (formatRawMinLength + sv.start.toNat) sv.size data

end DtUtils
