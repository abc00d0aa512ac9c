import OsesProject.Lib.Run
import OsesProject.Lib.CircularList
import OsesProject.Lib.Rings
import OsesProject.Lib.Fifo
import OsesProject.Lib.NorFlash
import OsesProject.Lib.Flow
import OsesProject.Lib.SerialDevice
import OsesProject.Lib.While
import OsesProject.Lib.Checked
import OsesProject.Lib.CircularBuffer
import OsesProject.Lib.Newton
import OsesProject.Lib.Series
import OsesProject.Kernel.Service
import OsesProject.Kernel.Object
import OsesProject.Kernel.Timer
import OsesProject.Kernel.Thread
import OsesProject.Kernel.Mutex
import OsesProject.Kernel.Program
import OsesProject.Kernel.ReadyTable
import OsesProject.Kernel.Semaphore
import OsesProject.Peripherals.W25q64
import OsesProject.Peripherals.BusyChip
import OsesProject.Peripherals.Spi
import OsesProject.Peripherals.FlashDevice
import OsesProject.Peripherals.ReadBuffers
import OsesProject.Peripherals.I2c
import OsesProject.Peripherals.Bmp280
import OsesProject.Peripherals.Mpu6050
import OsesProject.Peripherals.Serial
import OsesProject.Application.Deferrable
import OsesProject.Application.System
import OsesProject.Application.Procedure
import OsesProject.Application.FlashLog
import OsesProject.Application.Sampling
import OsesProject.Application.Producer
import OsesProject.Application.Boot
import OsesProject.Application.XenoJetBench
import OsesProject.Application.Benchmark
import OsesProject.Application.Mach
import OsesProject.Application.MathUtilities
import OsesProject.Laws.Locks
import OsesProject.Laws.Actions
import OsesProject.Laws.Calls
import OsesProject.Laws.Exclusion
import OsesProject.Laws.Waiters
import OsesProject.Laws.Semaphore
import OsesProject.Laws.Priority
import OsesProject.Laws.Timers
import OsesProject.Laws.Deadlines
import OsesProject.Laws.System
import OsesProject.Laws.Queue
import OsesProject.Laws.SharedData
import OsesProject.Laws.Wakeup
import OsesProject.Laws.ReadyTable
import OsesProject.Laws.Scheduler
import OsesProject.Laws.LinkedRuns
import OsesProject.Laws.Fairness
import OsesProject.Laws.Replenishment
import OsesProject.Laws.Demotion
import OsesProject.Laws.Dispatch
import OsesProject.Laws.Budget
import OsesProject.Laws.FullBudget
import OsesProject.Laws.Deadlock
import OsesProject.Laws.Boot
import OsesProject.Laws.HeapSem
import OsesProject.Laws.FlashLog
import OsesProject.Laws.Wraparound
import OsesProject.Laws.Placement
import OsesProject.Laws.Encoding
import OsesProject.Laws.BusyChip
import OsesProject.Laws.Sampling
import OsesProject.Laws.XenoJetBench
import OsesProject.Laws.Benchmark
import OsesProject.Laws.Records
import OsesProject.Laws.Spi
import OsesProject.Laws.Serial
import OsesProject.Laws.Bmp280
import OsesProject.Laws.Producer
import OsesProject.Laws.Mpu6050
import OsesProject.Laws.Magnitude
import OsesProject.Laws.Mach
import OsesProject.Laws.Divisors
import OsesProject.Laws.Sqroot
import OsesProject.Laws.Power
import OsesProject.Laws.ExpLog
import OsesProject.Laws.Fpow
import OsesProject.Kernel.Heap
import OsesProject.Laws.Heap
import OsesProject.Laws.Realloc
import OsesProject.Laws.HeapRuns
