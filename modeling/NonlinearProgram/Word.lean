
namespace NonlinearProgram

def isInt64 (n : Int) : Bool := -0x8000000000000000 ≤ n && n < 0x8000000000000000

def isInt32 (n : Int) : Bool := -0x80000000 ≤ n && n < 0x80000000

end NonlinearProgram
