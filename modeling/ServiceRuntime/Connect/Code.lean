import Mathlib

/-!
# Connect Codes

The codes of `connectrpc.com/connect` that the runtime names. A code is a number, that of gRPC.
-/

namespace ServiceRuntime.Connect

abbrev Code := UInt32

namespace Code

def canceled : Code := 1
def unknown : Code := 2
def invalidArgument : Code := 3
def notFound : Code := 5
def alreadyExists : Code := 6
def permissionDenied : Code := 7
def resourceExhausted : Code := 8
def failedPrecondition : Code := 9
def internal : Code := 13
def unavailable : Code := 14
def unauthenticated : Code := 16

end Code

end ServiceRuntime.Connect
